import OtTcpListener.Modbus.Read
import OtTcpListener.Sniffer.Frame

/-!
# Register labels across frames

A response to a read carries no address, so its registers can be labelled only by remembering the
request. `m_lastAddress` is there to remember it, but the `Modbus` object that holds it is local to
`processIpPacket`: the record of a frame is a function of that frame (`getElem?_run_map_round`), and
the base of the labels is 0 in all of them.

A run of delivered frames gets to a frame if the decoder returns on all frames before it; otherwise
it has ended. So the response is labelled with the addresses of its request if and only if no frame
before it ends the run, and it carries no registers, or at least four and the start address is 0
(`response_labelled_iff`).
-/

namespace OtTcpListener

open Probe QString

namespace Sniffer

/-! ## Runs of delivered frames -/

/-- What the program does not control when it looks at a frame. -/
structure Surroundings where
  beyond : Memory
  unset : Pointee
  heap : Heap

/-- A frame delivered in certain surroundings. -/
structure Delivery extends Surroundings where
  captured : Captured

/-- A round in which the frame is delivered and nobody stops the sniffer. -/
def Delivery.round (d : Delivery) : Round where
  next := .frame d.captured d.beyond
  unset := d.unset
  heap := d.heap

/-- The decoder returns on what the frame hands over: no complete ADU in it has the exception bit
and a PDU of five bytes or more. -/
def Delivery.Completes (d : Delivery) : Prop :=
  ∀ handover, (d.captured.visit d.heap d.beyond).handover = some handover →
    ∀ x ∈ (Modbus.mbap.pieces handover.payload).1,
      (Modbus.pduOf x).length < 5 ∨ (Modbus.functionCode x).toNat < 128

/-- A frame ends the run exactly when the decoder does not return on it. -/
theorem Delivery.unreturned_round_eq_false_iff (d : Delivery) :
    d.round.unreturned = false ↔ d.Completes := by
  have hround : d.round.unreturned = (d.captured.visit d.heap d.beyond).unreturned := rfl
  rw [hround, Dispatch.unreturned_eq, Completes]
  cases hho : (d.captured.visit d.heap d.beyond).handover with
  | none => exact iff_of_true rfl fun _ h ↦ absurd h (Option.some_ne_none _).symm
  | some handover =>
    obtain ⟨hdecode, hvisit⟩ := run_dispatch_of_handover hho
    have hreport : (d.captured.visit d.heap d.beyond).report = Sniffer.report d.heap handover := by
      rw [Captured.visit, hvisit]
      rfl
    rw [hreport, Option.isSome_some, Bool.true_and, Option.isNone_eq_false_iff, Sniffer.report,
      Option.isSome_map, Modbus.isSome_run_processModbusPacket_iff _ _ _ _
        (length_payload_of_decodeIpPacket hdecode)]
    simp only [Option.some.injEq, forall_eq']

/-- A run gets to a frame if the frames before it let it, and what comes of the frame then depends
on no other frame of the run. -/
theorem getElem?_run_map_round (before : List Delivery) (d : Delivery) (after : List Delivery)
    (v : Source × Dispatch) :
    (run ((before ++ d :: after).map Delivery.round))[before.length]? = some v ↔
      (∀ e ∈ before, e.Completes) ∧
        v = (.delivered d.captured, d.captured.visit d.heap d.beyond) := by
  induction before with
  | nil =>
    have hhead : (run ((d :: after).map Delivery.round))[0]? =
        some (.delivered d.captured, d.captured.visit d.heap d.beyond) := rfl
    rw [List.nil_append, List.length_nil, hhead, Option.some.injEq, eq_comm]
    exact (and_iff_right fun _ h ↦ absurd h List.not_mem_nil).symm
  | cons e before ih =>
    have htail : (run ((e :: before ++ d :: after).map Delivery.round))[(e :: before).length]? =
        (if e.round.unreturned then [] else
          run ((before ++ d :: after).map Delivery.round))[before.length]? := rfl
    rw [htail, List.forall_mem_cons, ← e.unreturned_round_eq_false_iff, and_assoc]
    cases e.round.unreturned with
    | true => exact iff_of_false (by simp) fun h ↦ absurd h.1 (by decide)
    | false => exact ih.trans (and_iff_right rfl).symm

/-- Of a frame captured whole only the payload matters, and only if it is handed over. -/
theorem Delivery.completes_whole_iff (s : Surroundings) (f : Frame)
    (h : f.encode.length < 2 ^ 32) :
    Completes ⟨s, .whole f.encode h⟩ ↔
      (f.ModbusPort ∧ 0 < f.payload.length ∧ f.payload.length < 2 ^ 31 →
        ∀ x ∈ (Modbus.mbap.pieces f.payload).1,
          (Modbus.pduOf x).length < 5 ∨ (Modbus.functionCode x).toNat < 128) := by
  rw [Completes, f.visit_encode, Frame.handover_outcome, Frame.handover]
  split
  · next hcond =>
    rw [forall_prop_of_true hcond]
    simp only [Option.some.injEq, forall_eq']
  · next hcond => exact iff_of_true (fun _ hnone ↦ by cases hnone) fun h ↦ absurd h hcond

/-! ## A request and its response -/

/-- A frame with a single ADU is shorter than what a capture header can express. -/
theorem Frame.length_encode_lt_of_adu (f : Frame) {a : Modbus.Adu} (h : f.payload = a.encode) :
    f.encode.length < 2 ^ 32 := by
  have hhl := f.ip.ip_hl_le
  have hoff := f.tcp.th_off_le
  have hpdu := a.length_pdu_le
  rw [f.length_encode, h, a.length_encode]
  omega

/-- The frames of a read: the request, and the response on the same connection. -/
structure Exchange extends Modbus.Read where
  query : Frame
  answer : Frame
  query_payload : query.payload = toRead.request.encode
  answer_payload : answer.payload = toRead.response.encode
  query_dport : query.tcp.th_dport = PORT_MBTCP
  answer_sport : answer.tcp.th_sport = query.tcp.th_dport
  answer_dport : answer.tcp.th_dport = query.tcp.th_sport
  answer_src : answer.ip.ip_src = query.ip.ip_dst
  answer_dst : answer.ip.ip_dst = query.ip.ip_src

namespace Exchange

variable (x : Exchange)

theorem length_query_lt : x.query.encode.length < 2 ^ 32 :=
  x.query.length_encode_lt_of_adu x.query_payload

theorem length_answer_lt : x.answer.encode.length < 2 ^ 32 :=
  x.answer.length_encode_lt_of_adu x.answer_payload

/-- The request delivered. -/
def deliverQuery (s : Surroundings) : Delivery := ⟨s, .whole x.query.encode x.length_query_lt⟩

/-- The response delivered. -/
def deliverAnswer (s : Surroundings) : Delivery := ⟨s, .whole x.answer.encode x.length_answer_lt⟩

end Exchange

/-! ## The record of a response -/

/-- A record was produced, and these are its lines for registers. -/
def Dispatch.HasRegisterLines (d : Dispatch) (lines : List QString) : Prop :=
  ∃ r, d.report = some r ∧ r.splitted.drop 4 = lines

/-- The record of a payload with a single ADU. Its registers are numbered from base 0. -/
theorem report_of_adu {handover : Handover} {a : Modbus.Adu}
    (hpayload : handover.payload = a.encode)
    (hlen : (handover.payload.length : ℤ) = handover.payload_len) {heap : Heap} {reply : QString}
    {last' : UInt16}
    (hrun : (Modbus.analyzeModbusPacket 0 a.pdu.length).run (buffer a.pdu (heap 1)) =
      some (reply, last')) :
    ∃ r, report heap handover = some r ∧ r.splitted = split (join (a.texts reply) ';') ';' := by
  have hheap : heap.after 1 0 = heap 1 := rfl
  have hdecode : (Modbus.processModbusPacket (heap.after 1) {} handover.payload_len .empty).run
      (buffer handover.payload (heap 0)) =
        some (⟨[], last'⟩, QJsonObject.empty.insert "modbus" (join (a.texts reply) ';')) := by
    rw [Modbus.run_processModbusPacket _ _ _ _ hlen, hpayload, a.decodePayload_encode, hheap, hrun,
      Option.map_some, List.nil_append]
  rw [report, hdecode]
  exact ⟨_, rfl, congrArg (split · ';') (QJsonObject.value_insertAll_insert_self ..)⟩

/-- The lines for registers in the record of a Modbus frame with a single ADU. -/
theorem hasRegisterLines_iff {f : Frame} {a : Modbus.Adu} (hport : f.ModbusPort)
    (hpayload : f.payload = a.encode) (h : f.encode.length < 2 ^ 32) {heap : Heap}
    (beyond : Memory) {reply : QString} {last' : UInt16}
    (hrun : (Modbus.analyzeModbusPacket 0 a.pdu.length).run (buffer a.pdu (heap 1)) =
      some (reply, last')) (lines : List QString) :
    ((Captured.whole f.encode h).visit heap beyond).HasRegisterLines lines ↔
      Modbus.registerLines (join (a.texts reply) ';') = lines := by
  have hpdu := a.length_pdu_le
  have hlen : f.payload.length = 7 + a.pdu.length := by rw [hpayload, a.length_encode]
  obtain ⟨handover, hho⟩ : ∃ handover, f.handover = some handover :=
    ⟨_, dif_pos ⟨hport, by omega, by omega⟩⟩
  obtain ⟨hpayload', hlen', -⟩ := Frame.eq_of_handover_eq_some hho
  obtain ⟨r, hr, hsplitted⟩ := report_of_adu (hpayload'.trans hpayload)
    (by rw [hpayload', hlen']) hrun
  rw [Dispatch.HasRegisterLines, f.visit_encode, Frame.report_outcome, hho, Option.bind_some, hr,
    Modbus.registerLines, ← hsplitted]
  constructor
  · rintro ⟨r', hr', hlines⟩
    rwa [Option.some.inj hr']
  · intro hlines
    exact ⟨r, rfl, hlines⟩

namespace Exchange

variable (x : Exchange)

/-- Labels agree with numbers from 0 when the start address is 0, and otherwise not. -/
theorem labels_eq_mapIdx_iff (hne : x.registers ≠ []) :
    (x.registers.mapIdx fun i value ↦ Modbus.registerItem ((0 : UInt16).toNat + i) value) =
      x.labels ↔ x.address = 0 := by
  constructor
  · intro h
    obtain ⟨v, values, hregisters⟩ := List.exists_cons_of_ne_nil hne
    rw [Modbus.Read.labels.eq_def, hregisters, List.mapIdx_cons, List.mapIdx_cons] at h
    have hfirst := Modbus.registerItem_inj_left.mp (List.cons.inj h).1
    exact UInt16.toNat_inj.mp (by simpa using hfirst.symm)
  · intro h
    rw [Modbus.Read.labels.eq_def, h]

theorem answer_modbusPort : x.answer.ModbusPort := .inr (x.answer_sport.trans x.query_dport)

/-- The lines in the record of the response. -/
theorem hasRegisterLines_answer_iff (heap : Heap) (beyond : Memory) :
    ((Captured.whole x.answer.encode x.length_answer_lt).visit heap beyond).HasRegisterLines
        x.labels ↔ x.registers = [] ∨ 4 ≤ x.registers.length ∧ x.address = 0 := by
  have hlabels : x.labels.length = x.registers.length := List.length_mapIdx
  rcases lt_trichotomy x.registers.length 3 with h | h | h
  · -- no lines, which is right only where no labels are due
    obtain ⟨reply, hrun, hlines⟩ := x.registerLines_of_le_two 0 (heap 1) (by omega)
    have hnil : [] = x.labels ↔ x.registers = [] := by
      rw [eq_comm, ← List.length_eq_zero_iff, hlabels, List.length_eq_zero_iff]
    rw [hasRegisterLines_iff x.answer_modbusPort x.answer_payload _ beyond hrun, hlines, hnil]
    exact (or_iff_left fun h4 ↦ absurd h4.1 (by omega)).symm
  · -- one line where three are due
    obtain ⟨reply, last', item, hrun, hlines⟩ := x.registerLines_of_eq_three 0 (heap 1) h
    rw [hasRegisterLines_iff x.answer_modbusPort x.answer_payload _ beyond hrun, hlines]
    refine iff_of_false (fun heq ↦ ?_) ?_
    · have := congrArg List.length heq
      rw [List.length_singleton] at this
      omega
    · rintro (hnil | h4)
      · rw [hnil] at h
        cases h
      · omega
  · -- a line for each register, numbered from 0
    obtain ⟨reply, hrun, hlines⟩ := x.registerLines_of_four_le 0 (heap 1) h
    have hne : x.registers ≠ [] := List.length_pos_iff.mp (by omega)
    rw [hasRegisterLines_iff x.answer_modbusPort x.answer_payload _ beyond hrun, hlines,
      x.labels_eq_mapIdx_iff hne, or_iff_right hne, and_iff_right (show 4 ≤ _ from h)]

end Exchange

/-- The request does not end a run. -/
theorem Exchange.completes_deliverQuery (x : Exchange) (s : Surroundings) :
    (x.deliverQuery s).Completes := by
  refine (Delivery.completes_whole_iff s x.query x.length_query_lt).mpr fun _ y hy ↦ ?_
  have hpieces := x.request.isFrame_encode.pieces_append []
  rw [List.append_nil, SelfDelimiting.pieces_nil] at hpieces
  rw [x.query_payload, hpieces, List.mem_singleton] at hy
  have hcode : Modbus.functionCode y = x.function := by
    rw [hy, Modbus.functionCode, x.request.pduOf_encode]
    rfl
  rw [hcode]
  rcases x.function_eq with hfunction | hfunction <;> exact .inr (by rw [hfunction]; decide)

/-- **Register labels.** In a run of delivered frames that contains a request to read registers
and later its response, the record of the response labels the registers with their addresses if and
only if the decoder returns on all frames before it, and there are no registers, or at least four
and the start address is 0. -/
theorem response_labelled_iff (x : Exchange) (s s' : Surroundings)
    (before between after : List Delivery) :
    (∃ d, (run ((before ++ x.deliverQuery s :: between ++ x.deliverAnswer s' :: after).map
        Delivery.round))[before.length + 1 + between.length]? =
          some (.delivered (x.deliverAnswer s').captured, d) ∧
      d.HasRegisterLines x.labels) ↔
        (∀ d ∈ before ++ between, d.Completes) ∧
          (x.registers = [] ∨ 4 ≤ x.registers.length ∧ x.address = 0) := by
  have hlen : before.length + 1 + between.length =
      (before ++ x.deliverQuery s :: between).length := by
    rw [List.length_append, List.length_cons, Nat.add_right_comm, Nat.add_assoc]
  have hcompletes : (∀ d ∈ before ++ x.deliverQuery s :: between, d.Completes) ↔
      ∀ d ∈ before ++ between, d.Completes := by
    rw [List.forall_mem_append, List.forall_mem_append, List.forall_mem_cons,
      and_iff_right (x.completes_deliverQuery s)]
  rw [hlen, ← hcompletes, ← x.hasRegisterLines_answer_iff s'.heap s'.beyond]
  simp only [getElem?_run_map_round]
  constructor
  · rintro ⟨d, ⟨hbefore, hd⟩, hlines⟩
    rw [(Prod.mk.inj hd).2] at hlines
    exact ⟨hbefore, hlines⟩
  · rintro ⟨hbefore, hlines⟩
    exact ⟨_, ⟨hbefore, rfl⟩, hlines⟩

/-- A read of four registers from address 100, in plain frames. -/
def fourFrom100 : Exchange where
  transaction_id := 7
  unit_identifier := 1
  function := 3
  address := 100
  registers := [1, 2, 3, 4]
  function_eq := .inl rfl
  address_add_le := by decide
  length_registers_le := by decide
  query := .plain 1024 502 [0, 7, 0, 0, 0, 6, 1, 3, 0, 100, 0, 4]
  answer :=
    { Frame.plain 502 1024 [0, 7, 0, 0, 0, 11, 1, 3, 8, 0, 1, 0, 2, 0, 3, 0, 4] with
      ip := { (Frame.plain 502 1024 []).ip with
        ip_len := 57
        ip_src := ⟨192, 168, 1, 20⟩
        ip_dst := ⟨192, 168, 1, 10⟩ } }
  query_payload := rfl
  answer_payload := rfl
  query_dport := rfl
  answer_sport := rfl
  answer_dport := rfl
  answer_src := rfl
  answer_dst := rfl

/-- Surroundings filled with zeros. -/
def zeros : Surroundings := ⟨fun _ ↦ 0, ⟨⟨0, 0⟩, fun _ ↦ 0⟩, fun _ _ ↦ 0⟩

/-- The response that follows its request at once is labelled from 0. -/
theorem not_labelled_fourFrom100 :
    ¬∃ d, (run ([fourFrom100.deliverQuery zeros, fourFrom100.deliverAnswer zeros].map
          Delivery.round))[1]? =
        some (.delivered (fourFrom100.deliverAnswer zeros).captured, d) ∧
      d.HasRegisterLines fourFrom100.labels := by
  rintro ⟨d, hd, hlines⟩
  rw [(Prod.mk.inj ((getElem?_run_map_round [fourFrom100.deliverQuery zeros] _ [] _).mp hd).2).2]
    at hlines
  have h := (fourFrom100.hasRegisterLines_answer_iff zeros.heap zeros.beyond).mp hlines
  exact absurd h (by decide)

end Sniffer

end OtTcpListener
