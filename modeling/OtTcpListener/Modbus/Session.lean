import OtTcpListener.Modbus.Framing

/-!
# One object and many payloads

A `Modbus` object may be given one payload after the other. It keeps `m_lastAddress` between them,
and `data`, which the code clears in one place only: where the last ADU of a payload has been
decoded and nothing remains.

A call that leaves because an ADU is incomplete therefore leaves the texts of the ADUs before it
behind, and the next payload is published with them in front. The payloads that leave nothing
behind are those that are cut without remainder and those whose first ADU is incomplete already
(`deliver_data_iff`); a run is free of residue exactly when its payloads are of these kinds
(`noResidue_iff`).
-/

namespace OtTcpListener

open Probe QString

namespace Modbus

/-! ## Payloads -/

/-- A payload as a call finds it: the bytes, what lies behind them, and the blocks the call
allocates. -/
structure Payload where
  bytes : List UInt8
  beyond : Memory
  heap : Heap
  length_pos : 0 < bytes.length
  /-- The length is passed as an `int`. -/
  length_lt : bytes.length < 2 ^ 31

namespace Payload

/-- The `length` argument. -/
def length (p : Payload) : PosInt :=
  ⟨p.bytes.length, Int.natCast_pos.mpr p.length_pos, by exact_mod_cast p.length_lt⟩

/-- The decoder does not run off the end of `analyzeModbusPacket`. -/
def Returns (p : Payload) : Prop :=
  ∀ x ∈ (mbap.pieces p.bytes).1, (pduOf x).length < 5 ∨ (functionCode x).toNat < 128

/-- There is no complete ADU at the start, or nothing after the complete ones. -/
def Settled (p : Payload) : Prop :=
  (mbap.pieces p.bytes).1 = [] ∨ (mbap.pieces p.bytes).2 = []

end Payload

/-! ## One payload -/

/-- The object and the fields after a call of `processModbusPacket` with no fields set. -/
def deliver (self : Modbus) (p : Payload) : Option (Modbus × QJsonObject) :=
  (processModbusPacket p.heap self p.length .empty).run (buffer p.bytes p.beyond)

theorem deliver_eq (self : Modbus) (p : Payload) :
    deliver self p = decodePayload p.heap self .empty p.bytes :=
  run_processModbusPacket p.heap self p.length .empty rfl p.beyond

theorem isSome_deliver_iff (self : Modbus) (p : Payload) :
    (deliver self p).isSome ↔ p.Returns := by
  rw [deliver_eq, decodePayload, Option.isSome_map,
    isSome_decodePieces_iff _ _ fun _ ↦ SelfDelimiting.isFrame_of_mem_pieces]
  rfl

/-- Every piece leaves texts. -/
theorem flatten_eq_nil_iff_of_decodePieces {heap : Heap} {last last' : UInt16}
    {pieces : List (List UInt8)} {gs : List (List QString)}
    (h : decodePieces heap last pieces = some (gs, last')) : gs.flatten = [] ↔ pieces = [] := by
  have hgroups := isGroupOf_of_decodePieces h
  cases hgroups with
  | nil => exact iff_of_true rfl rfl
  | cons hgroup _ =>
    obtain ⟨_, _, _, _, -, rfl⟩ := hgroup
    exact iff_of_false (List.cons_ne_nil _ _) (List.cons_ne_nil _ _)

/-- **What a payload leaves behind.** An object without texts is left without texts exactly by the
settled payloads. -/
theorem deliver_data_iff {self self' : Modbus} {p : Payload} {modbus_data : QJsonObject}
    (hdata : self.data = []) (h : deliver self p = some (self', modbus_data)) :
    self'.data = [] ↔ p.Settled := by
  rw [deliver_eq] at h
  obtain ⟨gs, hpieces, ⟨hrest, hdata', -⟩ | ⟨hrest, hdata', -⟩⟩ := exists_of_decodePayload h
  · exact iff_of_true hdata' (.inr hrest)
  · rw [Payload.Settled, ← flatten_eq_nil_iff_of_decodePieces hpieces, hdata', hdata,
      List.nil_append, or_iff_left hrest]

/-! ## Sequences of payloads -/

/-- The object after a sequence of payloads, if every call returns. -/
def objectAfter (self : Modbus) (payloads : List Payload) : Option Modbus :=
  payloads.foldlM (fun self p ↦ (deliver self p).map Prod.fst) self

theorem objectAfter_concat (self : Modbus) (done : List Payload) (p : Payload) :
    objectAfter self (done ++ [p]) =
      (objectAfter self done).bind fun s ↦ (deliver s p).map Prod.fst := by
  simp [objectAfter, List.foldlM_append]

theorem objectAfter_concat_eq_some {self self' : Modbus} {done : List Payload} {p : Payload} :
    objectAfter self (done ++ [p]) = some self' ↔
      ∃ s modbus_data, objectAfter self done = some s ∧
        deliver s p = some (self', modbus_data) := by
  rw [objectAfter_concat, Option.bind_eq_some_iff]
  refine exists_congr fun s ↦ ?_
  rw [Option.map_eq_some_iff, ← exists_and_left]
  exact ⟨fun ⟨⟨_, o⟩, hs, hr, heq⟩ ↦ ⟨o, hs, heq ▸ hr⟩, fun ⟨o, hs, hr⟩ ↦ ⟨_, hs, hr, rfl⟩⟩

/-- Every call returns when each payload is one on which it does, whatever the object holds. -/
theorem isSome_objectAfter_iff (self : Modbus) (payloads : List Payload) :
    (objectAfter self payloads).isSome ↔ ∀ p ∈ payloads, p.Returns := by
  induction payloads using List.reverseRecOn with
  | nil => exact iff_of_true rfl fun _ h ↦ absurd h List.not_mem_nil
  | append_singleton done p ih =>
    rw [List.forall_mem_append, List.forall_mem_singleton, ← ih, objectAfter_concat]
    cases objectAfter self done with
    | none => exact iff_of_false Bool.false_ne_true fun h ↦ Bool.false_ne_true h.1
    | some s =>
      rw [Option.bind_some, Option.isSome_map, isSome_deliver_iff]
      exact (and_iff_right rfl).symm

/-- Whatever part of the payloads has been delivered, the object holds no texts, and the outcome of
a next call is that of an object that knows nothing but `m_lastAddress`. -/
def NoResidue (self : Modbus) (payloads : List Payload) : Prop :=
  ∀ done rest self', payloads = done ++ rest → objectAfter self done = some self' →
    self'.data = [] ∧ ∀ p, deliver self' p = deliver ⟨[], self'.m_lastAddress⟩ p

/-- **Residue.** An object without texts never holds any between payloads, and its outcomes depend
on the payload and `m_lastAddress` alone, exactly when each payload that is delivered, and on which
the call returns, is settled. -/
theorem noResidue_iff (last : UInt16) (payloads : List Payload) :
    NoResidue ⟨[], last⟩ payloads ↔
      ∀ done p rest, payloads = done ++ p :: rest → (∀ q ∈ done ++ [p], q.Returns) →
        p.Settled := by
  constructor
  · intro h done p rest hsplit hreturns
    have hsome := (isSome_objectAfter_iff ⟨[], last⟩ (done ++ [p])).mpr hreturns
    obtain ⟨self', hself'⟩ := Option.isSome_iff_exists.mp hsome
    obtain ⟨s, modbus_data, hs, hdeliver⟩ := objectAfter_concat_eq_some.mp hself'
    have hbefore := (h done (p :: rest) s hsplit hs).1
    have hafter := (h (done ++ [p]) rest self' (by rw [hsplit, List.append_cons]) hself').1
    exact (deliver_data_iff hbefore hdeliver).mp hafter
  · intro h done
    induction done using List.reverseRecOn with
    | nil =>
      rintro rest self' - hself'
      obtain rfl := Option.some.inj hself'
      exact ⟨rfl, fun _ ↦ rfl⟩
    | append_singleton done p ih =>
      intro rest self' hsplit hself'
      rw [List.append_assoc] at hsplit
      obtain ⟨s, modbus_data, hs, hdeliver⟩ := objectAfter_concat_eq_some.mp hself'
      have hreturns := (isSome_objectAfter_iff ⟨[], last⟩ (done ++ [p])).mp (by rw [hself']; rfl)
      have hdata := (deliver_data_iff (ih _ s hsplit hs).1 hdeliver).mpr
        (h done p rest hsplit hreturns)
      obtain ⟨data, lastAddress⟩ := self'
      obtain rfl : data = [] := hdata
      exact ⟨rfl, fun _ ↦ rfl⟩

/-- A complete ADU without a PDU, and the first byte of another. -/
def cutAfterOne : Payload where
  bytes := [0, 1, 0, 0, 0, 1, 1, 0]
  beyond _ := 0
  heap _ _ := 0
  length_pos := by decide
  length_lt := by decide

theorem pieces_cutAfterOne :
    mbap.pieces cutAfterOne.bytes = ([[0, 1, 0, 0, 0, 1, 1]], [0]) := by
  have hframe : mbap.IsFrame [0, 1, 0, 0, 0, 1, 1] := by decide
  have hrest : mbap.Incomplete [0] := by decide
  exact (hframe.pieces_append [0]).trans (by rw [hrest.pieces_eq])

theorem not_noResidue_cutAfterOne : ¬∀ payloads : List Payload, NoResidue ⟨[], 0⟩ payloads := by
  intro h
  have hreturns : (deliver ⟨[], 0⟩ cutAfterOne).isSome := by
    rw [isSome_deliver_iff, Payload.Returns, pieces_cutAfterOne]
    decide
  obtain ⟨⟨self', modbus_data⟩, hdeliver⟩ := Option.isSome_iff_exists.mp hreturns
  have hself' : objectAfter ⟨[], 0⟩ ([] ++ [cutAfterOne]) = some self' :=
    objectAfter_concat_eq_some.mpr ⟨_, modbus_data, rfl, hdeliver⟩
  have hsettled := (deliver_data_iff rfl hdeliver).mp (h [cutAfterOne] _ [] self' rfl hself').1
  rw [Payload.Settled, pieces_cutAfterOne] at hsettled
  exact absurd hsettled (by decide)

end Modbus

end OtTcpListener
