import Numactl.Rtnetlink

/-! Route requests (`rta_put` and `rta_put_address` in `rtnetlink.c`, `find_route` in `affinity.c`). Attributes are
put behind a message one after the other; what has been put is read back by `rta_get`, and nothing outside of it
is written. -/

namespace Numactl

/-- The message with its buffer; `nlmsg_len` is kept apart. -/
structure NlMessage where
  buf : NlBuffer
  nlmsgLen : BitVec 32

def putU16 (buf : NlBuffer) (offset : Nat) (v : BitVec 16) : NlBuffer :=
  Function.update (Function.update buf offset (v.extractLsb' 0 8)) (offset + 1) (v.extractLsb' 8 8)

/-- The place for the data, and the message with the attribute. -/
def rtaPut (m : NlMessage) (type : BitVec 16) (len : Nat) : Nat × NlMessage :=
  let rta := rtaAlign m.nlmsgLen.toNat
  let rtalen := sizeofRtattr + len
  (rta + sizeofRtattr,
    { buf := putU16 (putU16 m.buf (rta + 2) type) rta (BitVec.ofNat 16 rtalen)
      nlmsgLen := BitVec.ofNat 32 (rta + rtaAlign rtalen) })

/-- Bytes stored from a place on. -/
def putData (buf : NlBuffer) (p : Nat) (data : List (BitVec 8)) : NlBuffer := fun offset =>
  if p ≤ offset ∧ offset < p + data.length then data.getD (offset - p) 0 else buf offset

/-- A socket address. -/
inductive Sockaddr where
  | inet (sinAddr : Vector (BitVec 8) 4)
  | inet6 (sin6Addr : Vector (BitVec 8) 16)
  | other

/-- The return value, and the message. -/
def rtaPutAddress (m : NlMessage) (type : BitVec 16) : Sockaddr → Int × NlMessage
  | .inet sinAddr =>
      let r := rtaPut m type 4
      (0, { r.2 with buf := putData r.2.buf r.1 sinAddr.toList })
  | .inet6 sin6Addr =>
      let r := rtaPut m type 16
      (0, { r.2 with buf := putData r.2.buf r.1 sin6Addr.toList })
  | .other => (-1, m)

def rtaDst : BitVec 16 := 1

/-- `sizeof req`. -/
def sizeofReq : Nat := hdrlen + 256

/-- `req`, with its headers. -/
def routeReq (headers : NlBuffer) : NlMessage where
  buf offset := if offset < hdrlen then headers offset else 0
  nlmsgLen := BitVec.ofNat 32 hdrlen

/-- `find_route`, with the headers of the request and what `rtnetlink_request` leaves in the buffer (`none` where
it fails): the bytes copied to `*iifp`. -/
def findRoute (request : NlMessage → Option NlMessage) (headers : NlBuffer) (fuel : Nat) (dst : Sockaddr) :
    Option (Option (List (BitVec 8))) :=
  let r := rtaPutAddress (routeReq headers) rtaDst dst
  if r.1 < 0 then some none
  else
    match request r.2 with
    | none => some none
    | some reply => findOif reply.buf fuel none reply.nlmsgLen

/-! ### One attribute -/

theorem u16At_putU16 (buf : NlBuffer) (offset : Nat) (v : BitVec 16) : u16At (putU16 buf offset v) offset = v := by
  have hlow : putU16 buf offset v offset = v.extractLsb' 0 8 := by
    rw [putU16, Function.update_of_ne (Nat.succ_ne_self offset).symm, Function.update_self]
  have hhigh : putU16 buf offset v (offset + 1) = v.extractLsb' 8 8 := Function.update_self ..
  rw [u16At, hlow, hhigh]
  exact BitVec.extractLsb'_append_extractLsb'_eq_extractLsb' (by decide) |>.trans (by simp)

theorem putU16_of_outside (buf : NlBuffer) {offset i : Nat} (v : BitVec 16) (h : i < offset ∨ offset + 2 ≤ i) :
    putU16 buf offset v i = buf i := by
  rw [putU16, Function.update_of_ne (by omega), Function.update_of_ne (by omega)]

theorem u16At_putU16_of_outside (buf : NlBuffer) {offset i : Nat} (v : BitVec 16)
    (h : i + 2 ≤ offset ∨ offset + 2 ≤ i) : u16At (putU16 buf offset v) i = u16At buf i := by
  rw [u16At, putU16_of_outside _ _ (by omega), putU16_of_outside _ _ (by omega), u16At]

theorem putData_of_outside (buf : NlBuffer) {p i : Nat} {data : List (BitVec 8)}
    (h : i < p ∨ p + data.length ≤ i) : putData buf p data i = buf i := by
  rw [putData, if_neg (by omega)]

theorem u16At_putData (buf : NlBuffer) {p offset : Nat} {data : List (BitVec 8)} (h : offset + 2 ≤ p) :
    u16At (putData buf p data) offset = u16At buf offset := by
  rw [u16At, putData_of_outside _ (by omega), putData_of_outside _ (by omega), u16At]

namespace RtAttr

variable {a : RtAttr} {buf buf' : NlBuffer} {offset : Nat}

/-- An attribute put behind a message. -/
def put (m : NlMessage) (a : RtAttr) : NlMessage :=
  let r := rtaPut m a.type a.data.length
  { r.2 with buf := putData r.2.buf r.1 a.data }

/-- The attribute is what is in its own bytes. -/
theorem At.congr (h : a.At buf offset) (hbuf : ∀ i, offset ≤ i → i < offset + a.len → buf' i = buf i) :
    a.At buf' offset := by
  have hlen : a.len = 4 + a.data.length := rfl
  have hsizeof : sizeofRtattr = 4 := rfl
  constructor
  · rw [rtaLen, u16At, hbuf offset (by omega) (by omega), hbuf (offset + 1) (by omega) (by omega)]
    exact h.len_eq
  · rw [rtaType, u16At, hbuf (offset + 2) (by omega) (by omega), hbuf (offset + 2 + 1) (by omega) (by omega)]
    exact h.type_eq
  · intro j hj
    rw [hbuf (offset + sizeofRtattr + j) (by omega) (by omega)]
    exact h.data_eq j hj

/-- What `put` does: the attribute stands at the end of the message, aligned, and the length is that of the message
with it. -/
theorem put_spec (m : NlMessage) (a : RtAttr) (hfit : rtaAlign m.nlmsgLen.toNat + rtaAlign a.len < 2 ^ 32) :
    a.At (put m a).buf (rtaAlign m.nlmsgLen.toNat) ∧
      (put m a).nlmsgLen.toNat = rtaAlign m.nlmsgLen.toNat + rtaAlign a.len ∧
      ∀ i, i < rtaAlign m.nlmsgLen.toNat ∨ rtaAlign m.nlmsgLen.toNat + a.len ≤ i → (put m a).buf i = m.buf i := by
  have hlen : a.len = 4 + a.data.length := rfl
  have hsizeof : sizeofRtattr = 4 := rfl
  have hfits := a.fits
  refine ⟨⟨?_, ?_, ?_⟩, ?_, ?_⟩
  · rw [rtaLen, put, rtaPut]
    dsimp only
    rw [u16At_putData _ (by omega), u16At_putU16, BitVec.toNat_ofNat, Nat.mod_eq_of_lt hfits]
    rfl
  · rw [rtaType, put, rtaPut]
    dsimp only
    rw [u16At_putData _ (by omega), u16At_putU16_of_outside _ _ (by omega), u16At_putU16]
  · intro j hj
    rw [put, rtaPut]
    dsimp only
    rw [putData, if_pos (by omega), Nat.add_sub_cancel_left]
  · rw [put, rtaPut]
    dsimp only
    rw [BitVec.toNat_ofNat, Nat.mod_eq_of_lt]
    · rfl
    · exact hfit
  · intro i hi
    rw [put, rtaPut]
    dsimp only
    rw [putData_of_outside _ (by omega), putU16_of_outside _ _ (by omega), putU16_of_outside _ _ (by omega)]

end RtAttr

/-! ### A whole message -/

theorem attrsAt_append {buf : NlBuffer} {offset : Nat} {xs ys : List RtAttr} :
    AttrsAt buf offset (xs ++ ys) ↔ AttrsAt buf offset xs ∧ AttrsAt buf (offset + attrsLen xs) ys := by
  induction xs generalizing offset with
  | nil => exact (and_iff_right trivial).symm
  | cons a xs ih =>
      rw [List.cons_append, AttrsAt, AttrsAt, ih, and_assoc, attrsLen, Nat.add_assoc]

theorem attrsLen_append (xs ys : List RtAttr) : attrsLen (xs ++ ys) = attrsLen xs + attrsLen ys := by
  induction xs with
  | nil => exact (Nat.zero_add _).symm
  | cons a xs ih => rw [List.cons_append, attrsLen, attrsLen, ih, Nat.add_assoc]

theorem rtaAlign_attrsLen (attrs : List RtAttr) : rtaAlign (hdrlen + attrsLen attrs) = hdrlen + attrsLen attrs := by
  have hmul : ∃ n, attrsLen attrs = 4 * n := by
    induction attrs with
    | nil => exact ⟨0, rfl⟩
    | cons a attrs ih =>
        obtain ⟨n, hn⟩ := ih
        refine ⟨(a.len + 3) / 4 + n, ?_⟩
        rw [attrsLen, hn, rtaAlign]
        omega
  obtain ⟨n, hn⟩ := hmul
  rw [hn, rtaAlign, hdrlen]
  omega

theorem dataEnd_le_attrsLen (offset : Nat) (attrs : List RtAttr) : dataEnd offset attrs ≤ offset + attrsLen attrs := by
  induction attrs generalizing offset with
  | nil => exact le_rfl
  | cons a attrs ih =>
      cases attrs with
      | nil => exact Nat.add_le_add_left (le_rtaAlign a.len) offset
      | cons b attrs =>
          rw [dataEnd, attrsLen, ← Nat.add_assoc]
          · exact ih (offset + rtaAlign a.len)
          · exact List.cons_ne_nil b attrs

/-- The attributes are in the bytes up to the last one's. -/
theorem AttrsAt.congr {buf buf' : NlBuffer} {offset : Nat} {attrs : List RtAttr} (h : AttrsAt buf offset attrs)
    (hbuf : ∀ i, offset ≤ i → i < offset + attrsLen attrs → buf' i = buf i) : AttrsAt buf' offset attrs := by
  induction attrs generalizing offset with
  | nil => trivial
  | cons a attrs ih =>
      have hle := le_rtaAlign a.len
      rw [attrsLen] at hbuf
      refine ⟨h.1.congr fun i hi hlt => hbuf i hi (by omega), ih h.2 fun i hi hlt => hbuf i (by omega) (by omega)⟩

/-- Attributes put one after the other. -/
def putAll (m : NlMessage) (attrs : List RtAttr) : NlMessage := attrs.foldl RtAttr.put m

/-- What has been put into the buffer of `m` behind the headers. -/
structure Puts (m : NlMessage) (attrs : List RtAttr) (m' : NlMessage) : Prop where
  len_eq : m'.nlmsgLen.toNat = hdrlen + attrsLen attrs
  attrs_at : AttrsAt m'.buf hdrlen attrs
  outside : ∀ i, i < hdrlen ∨ hdrlen + attrsLen attrs ≤ i → m'.buf i = m.buf i

theorem Puts.put {m m' : NlMessage} {attrs : List RtAttr} {a : RtAttr} (h : Puts m attrs m')
    (hfit : hdrlen + attrsLen (attrs ++ [a]) < 2 ^ 32) : Puts m (attrs ++ [a]) (RtAttr.put m' a) := by
  have hsum : attrsLen (attrs ++ [a]) = attrsLen attrs + rtaAlign a.len := attrsLen_append attrs [a]
  have hend : rtaAlign m'.nlmsgLen.toNat = hdrlen + attrsLen attrs := by rw [h.len_eq, rtaAlign_attrsLen]
  have hle := le_rtaAlign a.len
  obtain ⟨hat, hlen, hout⟩ := RtAttr.put_spec m' a (by omega)
  rw [hend] at hat hlen hout
  refine ⟨by omega, attrsAt_append.mpr ⟨h.attrs_at.congr fun i _ hlt => hout i (Or.inl hlt), hat, trivial⟩, ?_⟩
  intro i hi
  rw [hout i (by omega)]
  exact h.outside i (by omega)

/-- Putting attributes behind the headers: they stand there in their order, and the rest of the buffer is what it
was. -/
theorem puts_putAll {m : NlMessage} (hlen : m.nlmsgLen.toNat = hdrlen) {attrs : List RtAttr}
    (hfit : hdrlen + attrsLen attrs < 2 ^ 32) : Puts m attrs (putAll m attrs) := by
  induction attrs using List.reverseRecOn with
  | nil => exact ⟨hlen, trivial, fun _ _ => rfl⟩
  | append_singleton attrs a ih =>
      have hsum := attrsLen_append attrs [a]
      rw [putAll, List.foldl_append]
      exact (ih (by omega)).put hfit

theorem Puts.routeMessage {m m' : NlMessage} {attrs : List RtAttr} (h : Puts m attrs m') :
    RouteMessage m'.buf m'.nlmsgLen.toNat attrs where
  len_lt := m'.nlmsgLen.isLt
  attrs_at := h.attrs_at
  dataEnd_le := h.len_eq ▸ dataEnd_le_attrsLen hdrlen attrs
  le_padded := h.len_eq.le

/-- A message is read to its end and no further if nothing behind it looks like one more attribute. -/
theorem returnsAttrs_of_not_phantom {buf : NlBuffer} {nlmsgLen : Nat} {a : RtAttr} {attrs : List RtAttr}
    (h : RouteMessage buf nlmsgLen (a :: attrs)) (hp : ¬Phantom buf nlmsgLen (a :: attrs)) :
    ReturnsAttrs buf nlmsgLen (a :: attrs) := by
  obtain ⟨hlen, hphantom⟩ := phantom_iff h
  have hwalk := rtaWalk_of_end h.attrs_at hlen (mt hphantom.mpr hp)
  refine ⟨attrs.length + 2, offsets hdrlen (a :: attrs), by rw [rtaWalk_none, hwalk]; rfl, ?_⟩
  exact (forall₂_offsets h.attrs_at).imp fun rta a hat => ⟨hat.1, hat.2.trans h.dataEnd_le⟩

/-- Behind the attributes the buffer is the old one. -/
theorem Puts.phantom_iff {m m' : NlMessage} {attrs : List RtAttr} (h : Puts m attrs m') :
    Phantom m'.buf m'.nlmsgLen.toNat attrs ↔
      sizeofRtattr ≤ rtaLen m.buf (hdrlen + attrsLen attrs) ∧ rtaLen m.buf (hdrlen + attrsLen attrs) ≤ hdrlen := by
  have hbehind : rtaLen m'.buf (hdrlen + attrsLen attrs) = rtaLen m.buf (hdrlen + attrsLen attrs) := by
    rw [rtaLen, u16At, h.outside _ (Or.inr le_rfl), h.outside _ (Or.inr (Nat.le_succ _))]
    rfl
  rw [Phantom, hbehind, h.len_eq, Nat.add_le_add_iff_right]

/-- What `rta_put` puts behind the headers of a message is what `rta_get` reads, unless the buffer behind it
looks like one more attribute. -/
theorem returnsAttrs_putAll_iff {m : NlMessage} (hlen : m.nlmsgLen.toNat = hdrlen) {attrs : List RtAttr}
    (hne : attrs ≠ []) (hfit : hdrlen + attrsLen attrs < 2 ^ 32) :
    ReturnsAttrs (putAll m attrs).buf (putAll m attrs).nlmsgLen.toNat attrs ↔
      ¬(sizeofRtattr ≤ rtaLen m.buf (hdrlen + attrsLen attrs) ∧ rtaLen m.buf (hdrlen + attrsLen attrs) ≤ hdrlen) := by
  have h := puts_putAll hlen hfit
  rw [← h.phantom_iff]
  cases attrs with
  | nil => exact absurd rfl hne
  | cons a attrs =>
      constructor
      · exact fun hreturns hp => not_returnsAttrs_of_phantom h.routeMessage hp hreturns
      · exact fun hp => returnsAttrs_of_not_phantom h.routeMessage hp

/-- Two attributes, put into an empty buffer. -/
theorem returnsAttrs_putAll_two : ReturnsAttrs (putAll ⟨fun _ => 0, 28⟩ [oif2, ⟨7, [1], by decide⟩]).buf
    (putAll ⟨fun _ => 0, 28⟩ [oif2, ⟨7, [1], by decide⟩]).nlmsgLen.toNat [oif2, ⟨7, [1], by decide⟩] :=
  (returnsAttrs_putAll_iff rfl (List.cons_ne_nil _ _) (by decide)).mpr
    fun h => absurd h.1 (by decide)

/-! ### The interface of a route -/

/-- The attribute for an address, if there is one. -/
def Sockaddr.attr : Sockaddr → Option RtAttr
  | .inet sinAddr => some ⟨rtaDst, sinAddr.toList, by rw [Vector.length_toList]; decide⟩
  | .inet6 sin6Addr => some ⟨rtaDst, sin6Addr.toList, by rw [Vector.length_toList]; decide⟩
  | .other => none

theorem rtaPutAddress_eq (m : NlMessage) {dst : Sockaddr} {d : RtAttr} (hdst : dst.attr = some d) :
    rtaPutAddress m rtaDst dst = (0, RtAttr.put m d) := by
  cases dst with
  | inet sinAddr =>
      cases hdst
      rw [rtaPutAddress, RtAttr.put, Vector.length_toList]
  | inet6 sin6Addr =>
      cases hdst
      rw [rtaPutAddress, RtAttr.put, Vector.length_toList]
  | other => cases hdst

theorem len_attr_le {dst : Sockaddr} {d : RtAttr} (hdst : dst.attr = some d) : rtaAlign d.len ≤ 20 := by
  cases dst with
  | inet sinAddr =>
      cases hdst
      rw [RtAttr.len, Vector.length_toList]
      decide
  | inet6 sin6Addr =>
      cases hdst
      rw [RtAttr.len, Vector.length_toList]
      decide
  | other => cases hdst

/-- The loop of `find_route` looks for the first `RTA_OIF` among what `rta_get` returns. -/
theorem findOif_of_rtaWalk {buf : NlBuffer} {fuel : Nat} {p : Option Nat} {len : BitVec 32} {rtas : List Nat}
    (h : rtaWalk buf fuel p len = some rtas) :
    findOif buf fuel p len = some ((rtas.find? fun rta => rtaType buf rta = rtaOif).map fun rta =>
      (List.range 4).map fun j => buf (rta + sizeofRtattr + j)) := by
  induction fuel generalizing p len rtas with
  | zero => cases h
  | succ fuel ih =>
      rw [rtaWalk] at h
      rw [findOif]
      obtain ⟨r, len', hget⟩ : ∃ r len', rtaGet buf len p hdrlen = (r, len') := ⟨_, _, rfl⟩
      rw [hget] at h ⊢
      cases r with
      | none =>
          cases h
          rfl
      | some rta =>
          obtain ⟨rest, hrest, rfl⟩ := Option.map_eq_some_iff.mp h
          dsimp only
          by_cases hoif : rtaType buf rta = rtaOif
          · rw [if_pos hoif, List.find?_cons, decide_eq_true hoif]
            rfl
          · rw [if_neg hoif, List.find?_cons, decide_eq_false hoif, ih hrest]

/-- Without an interface in the message none is found, if nothing behind it looks like an attribute. -/
theorem exists_findOif_eq_none {buf : NlBuffer} {nlmsgLen : Nat} {attrs : List RtAttr}
    (hreturns : ReturnsAttrs buf nlmsgLen attrs) (hother : ∀ a ∈ attrs, a.type ≠ rtaOif) :
    ∃ fuel, findOif buf fuel none (BitVec.ofNat 32 nlmsgLen) = some none := by
  obtain ⟨fuel, rtas, hwalk, hall⟩ := hreturns
  refine ⟨fuel, ?_⟩
  have hnone : (rtas.find? fun rta => rtaType buf rta = rtaOif) = none := by
    rw [List.find?_eq_none]
    intro rta hrta
    obtain ⟨i, hi, rfl⟩ := List.getElem_of_mem hrta
    have hat := (List.forall₂_iff_get.mp hall).2 i hi (hall.length_eq ▸ hi)
    rw [decide_eq_true_eq]
    exact fun htype => hother _ (List.get_mem _ _) (hat.1.type_eq.symm.trans htype)
  rw [findOif_of_rtaWalk hwalk, hnone]
  rfl

/-- `find_route` asks for the address it is given, in a request that is read back as it was put and does not leave
`req`. Of a reply it returns the first interface, whatever the buffer holds behind it, and fails where the reply is
read without one. -/
theorem findRoute_spec (request : NlMessage → Option NlMessage) (headers : NlBuffer) {dst : Sockaddr} {d : RtAttr}
    (hdst : dst.attr = some d) :
    ∃ m, Puts (routeReq headers) [d] m ∧ m.nlmsgLen.toNat ≤ sizeofReq ∧ ReturnsAttrs m.buf m.nlmsgLen.toNat [d] ∧
      ∀ reply, request m = some reply →
        (∀ pre a post, RouteMessage reply.buf reply.nlmsgLen.toNat (pre ++ a :: post) →
          (∀ c ∈ pre, c.type ≠ rtaOif) → a.type = rtaOif → 4 ≤ a.data.length →
            findRoute request headers (pre.length + 1) dst = some (some (a.data.take 4))) ∧
        ∀ attrs, ReturnsAttrs reply.buf reply.nlmsgLen.toNat attrs → (∀ a ∈ attrs, a.type ≠ rtaOif) →
          ∃ fuel, findRoute request headers fuel dst = some none := by
  have hlen : (routeReq headers).nlmsgLen.toNat = hdrlen := rfl
  have hsum : attrsLen [d] = rtaAlign d.len := rfl
  have hsmall := len_attr_le hdst
  have hheaders : hdrlen = 28 := rfl
  have hfit : hdrlen + attrsLen [d] < 2 ^ 32 := by omega
  have hputs := puts_putAll hlen hfit
  refine ⟨putAll (routeReq headers) [d], hputs, ?_, ?_, fun reply hreply => ?_⟩
  · have hreq : sizeofReq = 284 := rfl
    rw [hputs.len_eq]
    omega
  · refine returnsAttrs_of_not_phantom hputs.routeMessage fun h => ?_
    rw [hputs.phantom_iff] at h
    have hzero : rtaLen (routeReq headers).buf (hdrlen + attrsLen [d]) = 0 := by
      rw [rtaLen, u16At, routeReq]
      dsimp only
      rw [if_neg (by omega), if_neg (by omega)]
      rfl
    rw [hzero] at h
    exact absurd h.1 (by decide)
  · have hroute : ∀ fuel, findRoute request headers fuel dst = findOif reply.buf fuel none reply.nlmsgLen := by
      intro fuel
      change request (RtAttr.put (routeReq headers) d) = some reply at hreply
      rw [findRoute, rtaPutAddress_eq _ hdst]
      dsimp only
      rw [if_neg (by decide), hreply]
    have hword : BitVec.ofNat 32 reply.nlmsgLen.toNat = reply.nlmsgLen := by
      rw [BitVec.ofNat_toNat, BitVec.setWidth_eq]
    refine ⟨fun pre a post hmessage hpre hoif hdata => ?_, fun attrs hreturns hother => ?_⟩
    · rw [hroute, ← hword]
      exact findOif_of_message hmessage hpre hoif hdata
    · obtain ⟨fuel, hnone⟩ := exists_findOif_eq_none hreturns hother
      exact ⟨fuel, by rw [hroute, ← hword, hnone]⟩

/-- The loopback address, and the reply with interface 2. -/
theorem findRoute_loopback : ∃ m, Puts (routeReq fun _ => 0) [⟨rtaDst, [127, 0, 0, 1], by decide⟩] m ∧
    m.nlmsgLen.toNat ≤ sizeofReq ∧ ReturnsAttrs m.buf m.nlmsgLen.toNat [⟨rtaDst, [127, 0, 0, 1], by decide⟩] ∧
      findRoute (fun _ => some ⟨oif2Buffer 28, 36⟩) (fun _ => 0) 1 (.inet #v[127, 0, 0, 1]) =
        some (some [2, 0, 0, 0]) := by
  obtain ⟨m, hputs, hle, hreturns, hreply⟩ :=
    findRoute_spec (fun _ => some ⟨oif2Buffer 28, 36⟩) (fun _ => 0)
      (rfl : (Sockaddr.inet #v[127, 0, 0, 1]).attr = some _)
  refine ⟨m, hputs, hle, hreturns, ?_⟩
  exact (hreply _ rfl).1 [] oif2 [] (routeMessage_oif2 28) (fun c hc => absurd hc List.not_mem_nil) rfl (by decide)

end Numactl
