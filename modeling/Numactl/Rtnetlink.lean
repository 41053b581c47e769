import Mathlib.Algebra.Group.Nat.Defs
import Numactl.Bitmask

/-! The attributes of a route message (`rta_get` in `rtnetlink.c`, `find_route` in `affinity.c`). The buffer
is a function from offsets to bytes, and a pointer is an offset from the start of the message. The length
`nlmsg_len` that the macros count down is kept apart from the buffer; it lies before the attributes.
Numbers of two bytes have the low byte first. -/

namespace Numactl

/-- The bytes of the buffer, those of the message and those after it. -/
abbrev NlBuffer := Nat → BitVec 8

def u16At (buf : NlBuffer) (offset : Nat) : BitVec 16 := buf (offset + 1) ++ buf offset

/-- `rta->rta_len` and `rta->rta_type`. -/
def rtaLen (buf : NlBuffer) (rta : Nat) : Nat := (u16At buf rta).toNat

def rtaType (buf : NlBuffer) (rta : Nat) : BitVec 16 := u16At buf (rta + 2)

def sizeofRtattr : Nat := 4

/-- `RTA_ALIGN`, and `NLMSG_ALIGN`. -/
def rtaAlign (len : Nat) : Nat := (len + 3) / 4 * 4

def rtaOk (buf : NlBuffer) (rta : Nat) (len : BitVec 32) : Bool :=
  sizeofRtattr ≤ len.toNat ∧ sizeofRtattr ≤ rtaLen buf rta ∧ rtaLen buf rta ≤ len.toNat

/-- The attribute after `p`, or the first one, and what is left in `m->nlmsg_len`. -/
def rtaGet (buf : NlBuffer) (nlmsgLen : BitVec 32) (p : Option Nat) (offset : Nat) : Option Nat × BitVec 32 :=
  match p with
  | some p =>
      let nlmsgLen := nlmsgLen - BitVec.ofNat 32 (rtaAlign (rtaLen buf p))
      let rta := p + rtaAlign (rtaLen buf p)
      if rtaOk buf rta nlmsgLen then (some rta, nlmsgLen) else (none, nlmsgLen)
  | none => (some (rtaAlign offset), nlmsgLen)

/-- `NLMSG_LENGTH(sizeof(struct rtmsg))`. -/
def hdrlen : Nat := 16 + 12

/-- Calls of `rta_get` from `p` on until it returns NULL; `none` where the fuel does not reach that far. -/
def rtaWalk (buf : NlBuffer) : Nat → Option Nat → BitVec 32 → Option (List Nat)
  | 0, _, _ => none
  | fuel + 1, p, nlmsgLen =>
      match rtaGet buf nlmsgLen p hdrlen with
      | (none, _) => some []
      | (some rta, nlmsgLen) => (rtaWalk buf fuel (some rta) nlmsgLen).map (rta :: ·)

def rtaOif : BitVec 16 := 4

/-- The loop of `find_route`: the bytes copied to `*iifp`, or nothing. -/
def findOif (buf : NlBuffer) : Nat → Option Nat → BitVec 32 → Option (Option (List (BitVec 8)))
  | 0, _, _ => none
  | fuel + 1, p, nlmsgLen =>
      match rtaGet buf nlmsgLen p hdrlen with
      | (none, _) => some none
      | (some rta, nlmsgLen) =>
          if rtaType buf rta = rtaOif then some (some ((List.range 4).map fun j => buf (rta + sizeofRtattr + j)))
          else findOif buf fuel (some rta) nlmsgLen

/-! ### Messages -/

/-- An attribute. -/
structure RtAttr where
  type : BitVec 16
  data : List (BitVec 8)
  fits : sizeofRtattr + data.length < 2 ^ 16

namespace RtAttr

def len (a : RtAttr) : Nat := sizeofRtattr + a.data.length

/-- The attribute stands at an offset. -/
structure At (a : RtAttr) (buf : NlBuffer) (offset : Nat) : Prop where
  len_eq : rtaLen buf offset = a.len
  type_eq : rtaType buf offset = a.type
  data_eq : ∀ j < a.data.length, buf (offset + sizeofRtattr + j) = a.data.getD j 0

end RtAttr

/-- The room attributes take. -/
def attrsLen : List RtAttr → Nat
  | [] => 0
  | a :: attrs => rtaAlign a.len + attrsLen attrs

/-- The attributes stand one after the other from an offset on. -/
def AttrsAt (buf : NlBuffer) : Nat → List RtAttr → Prop
  | _, [] => True
  | offset, a :: attrs => a.At buf offset ∧ AttrsAt buf (offset + rtaAlign a.len) attrs

def offsets : Nat → List RtAttr → List Nat
  | _, [] => []
  | offset, a :: attrs => offset :: offsets (offset + rtaAlign a.len) attrs

/-- Where the data of the last attribute ends. -/
def dataEnd : Nat → List RtAttr → Nat
  | offset, [] => offset
  | offset, [a] => offset + a.len
  | offset, a :: attrs => dataEnd (offset + rtaAlign a.len) attrs

/-- A route message of length `nlmsgLen`: it ends with its last attribute, padded or not. -/
structure RouteMessage (buf : NlBuffer) (nlmsgLen : Nat) (attrs : List RtAttr) : Prop where
  len_lt : nlmsgLen < 2 ^ 32
  attrs_at : AttrsAt buf hdrlen attrs
  dataEnd_le : dataEnd hdrlen attrs ≤ nlmsgLen
  le_padded : nlmsgLen ≤ hdrlen + attrsLen attrs

/-- Iterating `rta_get` returns the attributes of the message in their order, each wholly in the message, and
then NULL. -/
def ReturnsAttrs (buf : NlBuffer) (nlmsgLen : Nat) (attrs : List RtAttr) : Prop :=
  ∃ fuel rtas, rtaWalk buf fuel none (BitVec.ofNat 32 nlmsgLen) = some rtas ∧
    List.Forall₂ (fun rta (a : RtAttr) => a.At buf rta ∧ rta + a.len ≤ nlmsgLen) rtas attrs

/-- The bytes behind the attributes look like an attribute that is no longer than the length less the
attributes, from which the headers have not been taken off. -/
def Phantom (buf : NlBuffer) (nlmsgLen : Nat) (attrs : List RtAttr) : Prop :=
  sizeofRtattr ≤ rtaLen buf (hdrlen + attrsLen attrs) ∧
    rtaLen buf (hdrlen + attrsLen attrs) + attrsLen attrs ≤ nlmsgLen

/-! ### Walking the attributes -/

theorem le_rtaAlign (len : Nat) : len ≤ rtaAlign len := by
  unfold rtaAlign
  omega

theorem rtaAlign_lt (len : Nat) : rtaAlign len < len + 4 := by
  unfold rtaAlign
  omega

theorem rtaOk_iff {buf : NlBuffer} {rta : Nat} {len : BitVec 32} :
    rtaOk buf rta len = true ↔
      sizeofRtattr ≤ len.toNat ∧ sizeofRtattr ≤ rtaLen buf rta ∧ rtaLen buf rta ≤ len.toNat := by
  rw [rtaOk, decide_eq_true_eq]

section

variable {buf : NlBuffer} {offset : Nat} {a : RtAttr} {attrs : List RtAttr} {len : BitVec 32}

/-- The step from an attribute: the next place, and the length less the attribute. -/
theorem rtaGet_some (ha : a.At buf offset) (hlen : rtaAlign a.len ≤ len.toNat) :
    ∃ left : BitVec 32, left.toNat = len.toNat - rtaAlign a.len ∧
      rtaGet buf len (some offset) hdrlen =
        if rtaOk buf (offset + rtaAlign a.len) left then (some (offset + rtaAlign a.len), left) else (none, left) := by
  have hlt := len.isLt
  have hsmall : (BitVec.ofNat 32 (rtaAlign a.len)).toNat = rtaAlign a.len := by
    rw [BitVec.toNat_ofNat, Nat.mod_eq_of_lt (by omega)]
  refine ⟨len - BitVec.ofNat 32 (rtaAlign a.len), ?_, ?_⟩
  · rw [BitVec.toNat_sub_of_le (BitVec.le_def.mpr (by rw [hsmall]; exact hlen)), hsmall]
  · rw [rtaGet, ha.len_eq]

/-- An attribute of the message passes the check. -/
theorem rtaOk_of_at (ha : a.At buf offset) (hlen : a.len ≤ len.toNat) : rtaOk buf offset len = true := by
  have hpos : sizeofRtattr ≤ a.len := Nat.le_add_right _ _
  rw [rtaOk_iff, ha.len_eq]
  exact ⟨hpos.trans hlen, hpos, hlen⟩

/-- The step to the next attribute of the message: the room behind the attributes stays what it is. -/
theorem rtaGet_next {b : RtAttr} (hat : AttrsAt buf offset (a :: b :: attrs))
    (hlen : attrsLen (a :: b :: attrs) ≤ len.toNat) :
    ∃ left : BitVec 32, rtaGet buf len (some offset) hdrlen = (some (offset + rtaAlign a.len), left) ∧
      attrsLen (b :: attrs) ≤ left.toNat ∧
        left.toNat - attrsLen (b :: attrs) = len.toNat - attrsLen (a :: b :: attrs) := by
  have hsum : attrsLen (a :: b :: attrs) = rtaAlign a.len + attrsLen (b :: attrs) := rfl
  have hb : b.len ≤ attrsLen (b :: attrs) := (le_rtaAlign b.len).trans (Nat.le_add_right _ _)
  obtain ⟨left, hleft, hget⟩ := rtaGet_some hat.1 (by omega : rtaAlign a.len ≤ len.toNat)
  rw [if_pos (rtaOk_of_at hat.2.1 (by omega))] at hget
  exact ⟨left, hget, by omega, by omega⟩

/-- Behind the attributes nothing is taken for an attribute: the rest of the walk is the rest of the
attributes. -/
theorem rtaWalk_of_end (hat : AttrsAt buf offset (a :: attrs)) (hlen : attrsLen (a :: attrs) ≤ len.toNat)
    (hend : ¬(sizeofRtattr ≤ len.toNat - attrsLen (a :: attrs) ∧
      sizeofRtattr ≤ rtaLen buf (offset + attrsLen (a :: attrs)) ∧
      rtaLen buf (offset + attrsLen (a :: attrs)) ≤ len.toNat - attrsLen (a :: attrs))) :
    rtaWalk buf (attrs.length + 1) (some offset) len = some (offsets (offset + rtaAlign a.len) attrs) := by
  induction attrs generalizing offset a len with
  | nil =>
      simp only [attrsLen, Nat.add_zero] at hlen hend
      obtain ⟨left, hleft, hget⟩ := rtaGet_some hat.1 hlen
      have hnot : ¬rtaOk buf (offset + rtaAlign a.len) left = true := by
        rw [rtaOk_iff, hleft]
        exact hend
      rw [if_neg hnot] at hget
      rw [List.length_nil, rtaWalk, hget]
      rfl
  | cons b attrs ih =>
      obtain ⟨left, hget, hlen, hleft⟩ := rtaGet_next hat hlen
      have hoffset : offset + rtaAlign a.len + attrsLen (b :: attrs) = offset + attrsLen (a :: b :: attrs) :=
        Nat.add_assoc _ _ _
      have hrest : rtaWalk buf (attrs.length + 1) (some (offset + rtaAlign a.len)) left =
          some (offsets (offset + rtaAlign a.len + rtaAlign b.len) attrs) := by
        apply ih hat.2 hlen
        rw [hoffset, hleft]
        exact hend
      rw [List.length_cons, rtaWalk, hget]
      dsimp only
      rw [hrest]
      rfl

/-- If something is, the walk gets longer than the attributes. -/
theorem lt_length_rtaWalk (hat : AttrsAt buf offset (a :: attrs)) (hlen : attrsLen (a :: attrs) ≤ len.toNat)
    (hend : sizeofRtattr ≤ len.toNat - attrsLen (a :: attrs) ∧
      sizeofRtattr ≤ rtaLen buf (offset + attrsLen (a :: attrs)) ∧
      rtaLen buf (offset + attrsLen (a :: attrs)) ≤ len.toNat - attrsLen (a :: attrs)) {fuel : Nat} {rtas : List Nat}
    (hwalk : rtaWalk buf fuel (some offset) len = some rtas) : attrs.length < rtas.length := by
  induction attrs generalizing offset a len fuel rtas with
  | nil =>
      cases fuel with
      | zero => cases hwalk
      | succ fuel =>
          simp only [attrsLen, Nat.add_zero] at hlen hend
          obtain ⟨left, hleft, hget⟩ := rtaGet_some hat.1 hlen
          have hok : rtaOk buf (offset + rtaAlign a.len) left = true := by
            rw [rtaOk_iff, hleft]
            exact hend
          rw [if_pos hok] at hget
          rw [rtaWalk, hget] at hwalk
          obtain ⟨rest, -, rfl⟩ := Option.map_eq_some_iff.mp hwalk
          exact Nat.succ_pos _
  | cons b attrs ih =>
      cases fuel with
      | zero => cases hwalk
      | succ fuel =>
          obtain ⟨left, hget, hlen, hleft⟩ := rtaGet_next hat hlen
          have hoffset : offset + rtaAlign a.len + attrsLen (b :: attrs) = offset + attrsLen (a :: b :: attrs) :=
            Nat.add_assoc _ _ _
          rw [rtaWalk, hget] at hwalk
          obtain ⟨rest, hrest, rfl⟩ := Option.map_eq_some_iff.mp hwalk
          apply Nat.succ_lt_succ
          apply ih hat.2 hlen ?_ hrest
          rw [hoffset, hleft]
          exact hend

theorem le_dataEnd (offset : Nat) (attrs : List RtAttr) : offset ≤ dataEnd offset attrs := by
  induction attrs generalizing offset with
  | nil => exact le_rfl
  | cons a attrs ih =>
      cases attrs with
      | nil => exact Nat.le_add_right _ _
      | cons b attrs => exact (Nat.le_add_right _ _).trans (ih (offset + rtaAlign a.len))

theorem attrsLen_lt_dataEnd (offset : Nat) (a : RtAttr) (attrs : List RtAttr) :
    offset + attrsLen (a :: attrs) < dataEnd offset (a :: attrs) + 4 := by
  induction attrs generalizing offset a with
  | nil =>
      have := rtaAlign_lt a.len
      simp only [attrsLen, dataEnd]
      omega
  | cons b attrs ih =>
      have := ih (offset + rtaAlign a.len) b
      simp only [attrsLen, dataEnd] at this ⊢
      omega

/-- The attributes stand at their offsets, and end by the end of the last one. -/
theorem forall₂_offsets (hat : AttrsAt buf offset attrs) :
    List.Forall₂ (fun rta (a : RtAttr) => a.At buf rta ∧ rta + a.len ≤ dataEnd offset attrs)
      (offsets offset attrs) attrs := by
  induction attrs generalizing offset with
  | nil => exact List.Forall₂.nil
  | cons a attrs ih =>
      cases attrs with
      | nil => exact List.Forall₂.cons ⟨hat.1, le_rfl⟩ List.Forall₂.nil
      | cons b attrs =>
          refine List.Forall₂.cons ⟨hat.1, ?_⟩ (ih hat.2)
          calc offset + a.len ≤ offset + rtaAlign a.len := Nat.add_le_add_left (le_rtaAlign a.len) offset
            _ ≤ dataEnd (offset + rtaAlign a.len) (b :: attrs) := le_dataEnd _ _

end

/-- The first attribute is returned unchecked. -/
theorem rtaWalk_none (buf : NlBuffer) (fuel : Nat) (len : BitVec 32) :
    rtaWalk buf (fuel + 1) none len = (rtaWalk buf fuel (some hdrlen) len).map (hdrlen :: ·) := rfl

theorem toNat_nlmsgLen {buf : NlBuffer} {nlmsgLen : Nat} {attrs : List RtAttr} (h : RouteMessage buf nlmsgLen attrs) :
    (BitVec.ofNat 32 nlmsgLen).toNat = nlmsgLen := by
  rw [BitVec.toNat_ofNat, Nat.mod_eq_of_lt h.len_lt]

/-- The test the macros make behind the last attribute. -/
theorem phantom_iff {buf : NlBuffer} {nlmsgLen : Nat} {a : RtAttr} {attrs : List RtAttr}
    (h : RouteMessage buf nlmsgLen (a :: attrs)) :
    attrsLen (a :: attrs) ≤ (BitVec.ofNat 32 nlmsgLen).toNat ∧ (Phantom buf nlmsgLen (a :: attrs) ↔
      sizeofRtattr ≤ (BitVec.ofNat 32 nlmsgLen).toNat - attrsLen (a :: attrs) ∧
        sizeofRtattr ≤ rtaLen buf (hdrlen + attrsLen (a :: attrs)) ∧
        rtaLen buf (hdrlen + attrsLen (a :: attrs)) ≤
          (BitVec.ofNat 32 nlmsgLen).toNat - attrsLen (a :: attrs)) := by
  have hend := attrsLen_lt_dataEnd hdrlen a attrs
  have hdata := h.dataEnd_le
  have hheaders : hdrlen = 28 := rfl
  have hsizeof : sizeofRtattr = 4 := rfl
  rw [toNat_nlmsgLen h, Phantom]
  omega

theorem not_returnsAttrs_of_phantom {buf : NlBuffer} {nlmsgLen : Nat} {a : RtAttr} {attrs : List RtAttr}
    (h : RouteMessage buf nlmsgLen (a :: attrs)) (hp : Phantom buf nlmsgLen (a :: attrs)) :
    ¬ReturnsAttrs buf nlmsgLen (a :: attrs) := by
  intro hreturns
  obtain ⟨fuel, rtas, hwalk, hall⟩ := hreturns
  cases fuel with
  | zero => cases hwalk
  | succ fuel =>
      rw [rtaWalk_none] at hwalk
      obtain ⟨rest, hrest, rfl⟩ := Option.map_eq_some_iff.mp hwalk
      obtain ⟨hlen, hphantom⟩ := phantom_iff h
      have hlong := lt_length_rtaWalk h.attrs_at hlen (hphantom.mp hp) hrest
      have hsame := hall.length_eq
      simp only [List.length_cons] at hsame
      omega

/-- Iterating `rta_get` returns exactly the attributes of a message if and only if it has some, and the bytes
behind them do not look like one more. -/
theorem returnsAttrs_iff {buf : NlBuffer} {nlmsgLen : Nat} {attrs : List RtAttr}
    (h : RouteMessage buf nlmsgLen attrs) :
    ReturnsAttrs buf nlmsgLen attrs ↔ attrs ≠ [] ∧ ¬Phantom buf nlmsgLen attrs := by
  cases attrs with
  | nil =>
      refine iff_of_false (fun hreturns => ?_) fun hcond => hcond.1 rfl
      obtain ⟨fuel, rtas, hwalk, hall⟩ := hreturns
      cases hall
      cases fuel with
      | zero => cases hwalk
      | succ fuel =>
          rw [rtaWalk_none] at hwalk
          obtain ⟨rest, -, hrest⟩ := Option.map_eq_some_iff.mp hwalk
          cases hrest
  | cons a attrs =>
      refine ⟨fun hreturns => ⟨by simp, fun hp => not_returnsAttrs_of_phantom h hp hreturns⟩, fun hcond => ?_⟩
      obtain ⟨hlen, hphantom⟩ := phantom_iff h
      have hwalk := rtaWalk_of_end h.attrs_at hlen (mt hphantom.mpr hcond.2)
      refine ⟨attrs.length + 2, offsets hdrlen (a :: attrs), ?_, ?_⟩
      · rw [rtaWalk_none, hwalk]
        rfl
      · exact (forall₂_offsets h.attrs_at).imp fun rta a hat => ⟨hat.1, hat.2.trans h.dataEnd_le⟩

/-- The attribute with interface 2. -/
def oif2 : RtAttr where
  type := rtaOif
  data := [2, 0, 0, 0]
  fits := by decide

/-- A buffer with a message of this attribute, and behind it the bytes `stale`. -/
def oif2Buffer (stale : BitVec 8) : NlBuffer := fun offset =>
  if offset < 36 then ([8, 0, 4, 0, 2, 0, 0, 0] : List (BitVec 8)).getD (offset - 28) 0
  else if offset = 36 then stale else 0

theorem routeMessage_oif2 (stale : BitVec 8) : RouteMessage (oif2Buffer stale) 36 [oif2] where
  len_lt := by decide
  attrs_at := by
    refine ⟨{ len_eq := ?_, type_eq := ?_, data_eq := fun j hj => ?_ }, trivial⟩
    · simp [rtaLen, u16At, oif2Buffer, hdrlen, oif2, RtAttr.len, sizeofRtattr]
    · simp [rtaType, u16At, oif2Buffer, hdrlen, oif2, rtaOif]
    · have hlt : j < 4 := hj
      obtain rfl | rfl | rfl | rfl : j = 0 ∨ j = 1 ∨ j = 2 ∨ j = 3 := by omega
      all_goals simp [oif2Buffer, hdrlen, oif2, sizeofRtattr]
  dataEnd_le := by decide
  le_padded := by decide

/-- With zeros behind it the message is read. -/
theorem returnsAttrs_oif2 : ReturnsAttrs (oif2Buffer 0) 36 [oif2] :=
  (returnsAttrs_iff (routeMessage_oif2 0)).mpr ⟨by simp, fun h => absurd h.1 (by decide)⟩

/-- With a byte 28 behind it an attribute of 28 bytes is returned after the last one. -/
theorem not_returnsAttrs_oif2 : RouteMessage (oif2Buffer 28) 36 [oif2] ∧
    rtaWalk (oif2Buffer 28) 3 none 36 = some [28, 36] ∧ ¬ReturnsAttrs (oif2Buffer 28) 36 [oif2] := by
  refine ⟨routeMessage_oif2 28, by decide +kernel, not_returnsAttrs_of_phantom (routeMessage_oif2 28) ?_⟩
  exact ⟨by decide, by decide⟩

/-! ### The interface of a route -/

/-- The bytes copied from an attribute. -/
theorem copied_eq_take {buf : NlBuffer} {a : RtAttr} {rta : Nat} (ha : a.At buf rta) (hdata : 4 ≤ a.data.length) :
    ((List.range 4).map fun j => buf (rta + sizeofRtattr + j)) = a.data.take 4 := by
  apply List.ext_getElem
  · simp [hdata]
  · intro j hj hj'
    have hlt : j < 4 := by simpa using hj
    rw [List.getElem_map, List.getElem_range, ha.data_eq j (by omega), List.getElem_take,
      List.getD_eq_getElem _ _ (by omega)]

/-- From an attribute on, the first `RTA_OIF` after it is found. -/
theorem findOif_some {buf : NlBuffer} {pre post : List RtAttr} {a b : RtAttr} {offset : Nat} {len : BitVec 32}
    (hat : AttrsAt buf offset (b :: (pre ++ a :: post))) (hlen : attrsLen (b :: (pre ++ a :: post)) ≤ len.toNat)
    (hpre : ∀ c ∈ pre, c.type ≠ rtaOif) (hoif : a.type = rtaOif) (hdata : 4 ≤ a.data.length) :
    findOif buf (pre.length + 1) (some offset) len = some (some (a.data.take 4)) := by
  induction pre generalizing offset b len with
  | nil =>
      have hsum : attrsLen (b :: ([] ++ a :: post)) = rtaAlign b.len + (rtaAlign a.len + attrsLen post) := rfl
      have hhead : rtaAlign b.len ≤ len.toNat := by omega
      obtain ⟨left, hleft, hget⟩ := rtaGet_some hat.1 hhead
      have ha : a.At buf (offset + rtaAlign b.len) := hat.2.1
      have hlena := le_rtaAlign a.len
      rw [if_pos (rtaOk_of_at ha (by omega))] at hget
      rw [List.length_nil, findOif, hget]
      dsimp only
      rw [if_pos (ha.type_eq.trans hoif), copied_eq_take ha hdata]
  | cons c pre ih =>
      have hsum : attrsLen (b :: (c :: pre ++ a :: post)) =
          rtaAlign b.len + (rtaAlign c.len + attrsLen (pre ++ a :: post)) := rfl
      have hsum' : attrsLen (c :: (pre ++ a :: post)) = rtaAlign c.len + attrsLen (pre ++ a :: post) := rfl
      have hhead : rtaAlign b.len ≤ len.toNat := by omega
      obtain ⟨left, hleft, hget⟩ := rtaGet_some hat.1 hhead
      have hc : c.At buf (offset + rtaAlign b.len) := hat.2.1
      have hlenc := le_rtaAlign c.len
      rw [if_pos (rtaOk_of_at hc (by omega))] at hget
      have hne : ¬rtaType buf (offset + rtaAlign b.len) = rtaOif := by
        rw [hc.type_eq]
        exact hpre c List.mem_cons_self
      rw [List.length_cons, findOif, hget]
      dsimp only
      rw [if_neg hne]
      exact ih hat.2 (by omega) fun d hd => hpre d (List.mem_cons_of_mem c hd)

/-- A route message with an interface: `find_route` copies it from the first attribute that has it, whatever
is in the buffer behind the message. -/
theorem findOif_of_message {buf : NlBuffer} {nlmsgLen : Nat} {pre post : List RtAttr} {a : RtAttr}
    (h : RouteMessage buf nlmsgLen (pre ++ a :: post)) (hpre : ∀ c ∈ pre, c.type ≠ rtaOif)
    (hoif : a.type = rtaOif) (hdata : 4 ≤ a.data.length) :
    findOif buf (pre.length + 1) none (BitVec.ofNat 32 nlmsgLen) = some (some (a.data.take 4)) := by
  have hat := h.attrs_at
  cases pre with
  | nil =>
      change (if rtaType buf hdrlen = rtaOif then
        some (some ((List.range 4).map fun j => buf (hdrlen + sizeofRtattr + j))) else _) = _
      rw [if_pos (hat.1.type_eq.trans hoif), copied_eq_take hat.1 hdata]
  | cons b pre =>
      have hne : ¬rtaType buf hdrlen = rtaOif := by
        rw [hat.1.type_eq]
        exact hpre b List.mem_cons_self
      change (if rtaType buf hdrlen = rtaOif then _ else
        findOif buf (pre.length + 1) (some hdrlen) (BitVec.ofNat 32 nlmsgLen)) = _
      rw [if_neg hne]
      exact findOif_some hat (phantom_iff h).1 (fun c hc => hpre c (List.mem_cons_of_mem b hc)) hoif hdata

end Numactl
