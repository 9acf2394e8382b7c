import OtTcpListener.Modbus.Read
import OtTcpListener.Modbus.Session

/-!
# What the published text determines

The texts of all ADUs of a payload are joined into one, with the separator that is also inside the
replies. Nothing is lost in this. Split at that separator again, the text is a row of lines in which
the groups are told apart by the lines that open with the transaction id: no other line can open
with the same words, whatever the reply is. The first three lines of a group determine the
transaction id and the PDU, so two payloads that are published as the same text are made of the same
units, as far as the text speaks of them (`published_unambiguous`).
-/

namespace OtTcpListener

open Probe QString

namespace Modbus

/-! ## The lines of one group -/

/-- Whether a line is the first one of a group. -/
def opensGroup (line : QString) : Bool := "Transaction Id:".toList.isPrefixOf line.toList

/-- The lines of a text, taken together from each line that opens a group to the next. -/
def regroup (lines : List QString) : List (List QString) :=
  lines.splitBy fun _ line ↦ !opensGroup line

theorem opensGroup_transactionId (s : QString) : opensGroup ("Transaction Id:" ++ s) = true := by
  rw [opensGroup, List.isPrefixOf_iff_prefix, String.toList_append]
  exact List.prefix_append _ _

/-- A capital T is enough to look for. -/
theorem opensGroup_of_notMem {line : QString} (h : 'T' ∉ line.toList) :
    opensGroup line = false := by
  rw [opensGroup, Bool.eq_false_iff, ne_eq, List.isPrefixOf_iff_prefix]
  exact fun hopens ↦ h (hopens.subset (by decide))

namespace Adu

/-- The lines of a group are the heading of its unit and lines without a capital T. -/
def Prints (a : Adu) (g : List QString) : Prop :=
  g ≠ [] ∧ ∃ rest, split (join g ';') ';' = a.heading ++ rest ∧ ∀ s ∈ rest, 'T' ∉ s.toList

theorem prints_texts {a : Adu} {last last' : UInt16} {reply : QString}
    (h : a.reply last = some (reply, last')) : a.Prints (a.texts reply) := by
  refine ⟨List.cons_ne_nil _ _, ?_⟩
  rcases run_analyzeModbusPacket_cases h with ⟨-, rfl, -⟩ | ⟨items, rfl, hitems, -⟩
  · exact ⟨[], by rw [a.split_texts_empty, List.append_nil], fun _ hs ↦ absurd hs List.not_mem_nil⟩
  · refine ⟨_, a.split_texts_reply _ fun s hs ↦ (hitems s hs).notMem (.inl rfl), fun s hs ↦ ?_⟩
    rcases List.mem_cons.mp hs with rfl | hs
    · exact notMem_functionName _ (.inr rfl)
    · exact (hitems s hs).notMem (.inr rfl)

/-- The heading determines the transaction id and the PDU. -/
theorem heading_inj {a a' : Adu} (h : a.heading = a'.heading) :
    (a.transaction_id, a.pdu) = (a'.transaction_id, a'.pdu) := by
  rw [heading, heading, List.cons.injEq, List.cons.injEq, List.cons.injEq] at h
  obtain ⟨hid, -, hhex, -⟩ := h
  have hid' := number_injective (String.append_right_inj _ |>.mp hid)
  rw [UInt16.toNat_inj.mp (Int.ofNat_inj.mp hid'),
    toHex_injective (String.append_right_inj _ |>.mp hhex)]

/-- The lines of a group are a record opened by its transaction id. -/
theorem Prints.opened {a : Adu} {g : List QString} (h : a.Prints g) :
    ∃ mark rest, split (join g ';') ';' = mark :: rest ∧ opensGroup mark = true ∧
      ∀ line ∈ rest, opensGroup line = false := by
  obtain ⟨-, rest, hlines, hrest⟩ := h
  refine ⟨_, _, hlines, opensGroup_transactionId _, fun line hline ↦ opensGroup_of_notMem ?_⟩
  rcases List.mem_cons.mp hline with rfl | hline
  · rw [String.toList_append, List.mem_append, not_or]
    exact ⟨by decide, notMem_number rfl (by decide) _⟩
  rcases List.mem_cons.mp hline with rfl | hline
  · rw [String.toList_append, List.mem_append, not_or]
    exact ⟨by decide, notMem_toHex (by decide) (by decide) _⟩
  · exact hrest line hline

theorem Prints.take_lines {a : Adu} {g : List QString} (h : a.Prints g) :
    (split (join g ';') ';').take 3 = a.heading := by
  obtain ⟨-, rest, hlines, -⟩ := h
  rw [hlines]
  rfl

end Adu

/-! ## The lines of a text -/

theorem forall₂_prints_of_groups {last last' : UInt16} {adus : List Adu} {gs : List (List QString)}
    (h : groups last adus = some (gs, last')) : List.Forall₂ Adu.Prints adus gs := by
  induction adus generalizing last gs with
  | nil =>
    rw [groups, Option.some.injEq, Prod.mk.injEq] at h
    rw [← h.1]
    exact .nil
  | cons a adus ih =>
    rw [groups] at h
    split at h
    · cases h
    · next reply last₁ hreply =>
      obtain ⟨⟨gs', last₂⟩, htail, heq⟩ := Option.map_eq_some_iff.mp h
      rw [Prod.mk.injEq] at heq
      obtain ⟨rfl, rfl⟩ := heq
      exact .cons (Adu.prints_texts hreply) (ih htail)

/-- Splitting the text of some groups and looking for the lines that open a group recovers the lines
of each. -/
theorem regroup_split_join {adus : List Adu} {gs : List (List QString)}
    (h : List.Forall₂ Adu.Prints adus gs) (hne : adus ≠ []) :
    regroup (split (join gs.flatten ';') ';') = gs.map fun g ↦ split (join g ';') ';' := by
  have hprints : ∀ g ∈ gs, ∃ a : Adu, a.Prints g := fun g hg ↦ by
    obtain ⟨i, hi, rfl⟩ := List.getElem_of_mem hg
    exact ⟨_, h.get (h.length_eq ▸ hi) hi⟩
  have hne' : gs ≠ [] := by
    rintro rfl
    exact hne (List.forall₂_nil_right_iff.mp h)
  rw [split_join_flatten (fun g hg ↦ (hprints g hg).elim fun a ha ↦ ha.1) hne']
  refine SelfDelimiting.splitBy_flatten_of_opened fun x hx ↦ ?_
  obtain ⟨g, hg, rfl⟩ := List.mem_map.mp hx
  obtain ⟨a, ha⟩ := hprints g hg
  exact ha.opened

/-- The first three lines of each group are the headings of the units. -/
theorem map_take_lines {adus : List Adu} {gs : List (List QString)}
    (h : List.Forall₂ Adu.Prints adus gs) :
    (gs.map fun g ↦ split (join g ';') ';').map (List.take 3) = adus.map Adu.heading := by
  induction h with
  | nil => rfl
  | cons ha _ ih => rw [List.map_cons, List.map_cons, List.map_cons, ha.take_lines, ih]

/-- Lists of units with the same headings have the same transaction ids and PDUs. -/
theorem map_eq_of_map_heading_eq {adus adus' : List Adu}
    (h : adus.map Adu.heading = adus'.map Adu.heading) :
    adus.map (fun a ↦ (a.transaction_id, a.pdu)) =
      adus'.map fun a ↦ (a.transaction_id, a.pdu) := by
  obtain ⟨key, hkey⟩ := (Function.factorsThrough_iff fun a : Adu ↦ (a.transaction_id, a.pdu)).mp
    fun _ _ ↦ Adu.heading_inj
  rw [hkey, ← List.map_map, h, List.map_map]

/-! ## Published texts -/

/-- The text published for a payload, if there is one. -/
def published (self : Modbus) (p : Payload) : Option QString :=
  (deliver self p).bind fun r ↦ r.2 "modbus"

theorem published_eq {self : Modbus} (hdata : self.data = []) {p : Payload} {adus : List Adu}
    (hadus : ∀ a ∈ adus, a.Readable) (hbytes : p.bytes = encodeAll adus) :
    published self p = (groups self.m_lastAddress adus).map fun r ↦ join r.1.flatten ';' := by
  have hpayload := decodePayload_encodeAll_append p.heap self .empty hadus mbap.incomplete_nil
  rw [List.append_nil] at hpayload
  rw [published, deliver_eq, hbytes, hpayload, hdata]
  cases groups self.m_lastAddress adus with
  | none => rfl
  | some r => rfl

/-- A payload is made of one unit at least. -/
theorem ne_nil_of_bytes_eq {p : Payload} {adus : List Adu} (h : p.bytes = encodeAll adus) :
    adus ≠ [] := by
  rintro rfl
  exact List.ne_nil_of_length_pos p.length_pos h

/-- **The published text is unambiguous.** Units whose PDUs can be decoded are published by a fresh
object as one text. The lines of that text fall into the lines of each unit, and no other units are
published as the same text, unless they have the same transaction ids and PDUs. -/
theorem published_unambiguous {adus : List Adu} (hadus : ∀ a ∈ adus, a.Readable) {p : Payload}
    (hbytes : p.bytes = encodeAll adus) :
    ∃ text gs last', published {} p = some text ∧ groups 0 adus = some (gs, last') ∧
      regroup (split text ';') = (gs.map fun g ↦ split (join g ';') ';') ∧
      ∀ (adus' : List Adu) (p' : Payload), (∀ a ∈ adus', a.Readable) →
        p'.bytes = encodeAll adus' → published {} p' = some text →
        adus'.map (fun a ↦ (a.transaction_id, a.pdu)) =
          adus.map fun a ↦ (a.transaction_id, a.pdu) := by
  obtain ⟨gs, last', hgs, -⟩ := exists_groups 0 hadus
  have hprints := forall₂_prints_of_groups hgs
  have hlines := regroup_split_join hprints (ne_nil_of_bytes_eq hbytes)
  refine ⟨join gs.flatten ';', gs, last', ?_, hgs, hlines, ?_⟩
  · rw [published_eq rfl hadus hbytes, hgs, Option.map_some]
  · intro adus' p' hadus' hbytes' htext
    obtain ⟨gs', last'', hgs', -⟩ := exists_groups 0 hadus'
    have hprints' := forall₂_prints_of_groups hgs'
    have hlines' := regroup_split_join hprints' (ne_nil_of_bytes_eq hbytes')
    rw [published_eq rfl hadus' hbytes', hgs', Option.map_some, Option.some.injEq] at htext
    apply map_eq_of_map_heading_eq
    rw [← map_take_lines hprints', ← map_take_lines hprints, ← hlines, ← hlines', htext]

/-- The two responses as one payload. -/
def twoResponsesPayload : Payload where
  bytes := encodeAll twoResponses
  beyond _ := 0
  heap _ _ := 0
  length_pos := by decide
  length_lt := by decide

theorem published_unambiguous_twoResponses :
    ∃ text gs last', published {} twoResponsesPayload = some text ∧
      groups 0 twoResponses = some (gs, last') ∧
      regroup (split text ';') = (gs.map fun g ↦ split (join g ';') ';') ∧
      ∀ (adus' : List Adu) (p' : Payload), (∀ a ∈ adus', a.Readable) →
        p'.bytes = encodeAll adus' → published {} p' = some text →
        adus'.map (fun a ↦ (a.transaction_id, a.pdu)) =
          twoResponses.map fun a ↦ (a.transaction_id, a.pdu) :=
  published_unambiguous (p := twoResponsesPayload) (by decide) rfl

end Modbus

end OtTcpListener
