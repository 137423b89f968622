import HlLighterArb.Hl.Signing
import HlLighterArb.Journal.Complete
import HlLighterArb.Lib.Csv

/-!
# HlLighterArb.Journal.File

`TradeJournal`: rows are recorded in a buffer and written to the end of a file when the journal is
flushed. Fields go out as they are, without quotes. Nobody looks whether a stream that opened has
taken what was written to it: the buffer is cleared all the same.

* `TradeJournal.machine`: a journal over calls of `record` and `flush`, on a file whose streams may
  not open, or fail later. It observes what is given to the streams.
* `machine_written`: every flush that opens the file is given what was recorded since the last one.
* `AllTaken`: the streams take what they are given.
* `reads_back_iff`: the file reads back as the recorded rows exactly when the streams take all of
  them and the texts in them need no quotes.
-/

namespace Arb

/-- A number as a stream prints it with `std::fixed` and `std::setprecision`. -/
def fixedText (precision : Nat) (value : ℚ) : List Char :=
  let n := (roundHalfEven (|value| * 10 ^ precision)).toNat
  (if value < 0 then ['-'] else []) ++ Nat.toDigits 10 (n / 10 ^ precision) ++
    '.' :: (Nat.toDigits 10 (n % 10 ^ precision)).leftpad precision '0'

/-- How an `std::ofstream` on the file fares: it does not open, or it fails once it has taken some
characters, or it takes all. -/
inductive FileStream where
  | closed
  | failing (room : Nat)
  | sound
  deriving DecidableEq

/-- What reaches the file of a text. -/
def FileStream.taken : FileStream → List Char → List Char
  | .closed, _ => []
  | .failing room, text => text.take room
  | .sound, text => text

structure TradeJournal where
  file : List Char
  buf : List JournalEntry := []

inductive JournalCall where
  | record (entry : JournalEntry)
  | flush (stream : FileStream)

/-- The entries that a flush writes to its stream. -/
structure JournalWrite where
  stream : FileStream
  entries : List JournalEntry

namespace TradeJournal

def header : List Char :=
  ("trade_id,timestamp_us,type,hedge_status," ++
    "hl_fill_timestamp_us,lighter_fill_timestamp_us," ++
    "hl_side,hl_fill_price,hl_fill_size,hl_fee," ++
    "lighter_fill_price,lighter_fill_size,lighter_fee," ++
    "spread_bps,signal_spread_bps,maker_resting_ms,hedge_total_ms," ++
    "hl_oid,lt_tx," ++
    "unwind_fill_price,unwind_fill_size,unwind_fee,failure_reason\n").toList

/-- The journal on a file that may hold rows already. A file that cannot be read is taken for a new
one, and the stream for the header empties it. -/
def construct (file : List Char) (readable : Bool) (stream : FileStream) : TradeJournal :=
  if (readable ∧ file ≠ []) ∨ stream = .closed then { file } else { file := stream.taken header }

def writeEntry (e : JournalEntry) : List Char :=
  (toString e.tradeId).toList ++ ',' ::
  ((toString e.timestampUs).toList ++ ',' ::
  ([e.type] ++ ',' ::
  (e.hedgeStatus.toList ++ ',' ::
  ((toString e.hlFillTimestampUs).toList ++ ',' ::
  ((toString e.lighterFillTimestampUs).toList ++ ',' ::
  ([e.hlSide] ++ ',' ::
  (fixedText 6 e.hlPx ++ ',' ::
  (fixedText 6 e.hlSz ++ ',' ::
  (fixedText 8 e.hlFee ++ ',' ::
  (fixedText 6 e.ltFillPx ++ ',' ::
  (fixedText 6 e.ltSz ++ ',' ::
  (fixedText 8 e.ltFee ++ ',' ::
  (fixedText 4 e.spreadBps ++ ',' ::
  (fixedText 4 e.signalSpreadBps ++ ',' ::
  (fixedText 3 e.makerRestingMs ++ ',' ::
  (fixedText 3 e.hedgeTotalMs ++ ',' ::
  (e.hlOid.toList ++ ',' ::
  (e.ltTx.toList ++ ',' ::
  (fixedText 6 e.unwindFillPx ++ ',' ::
  (fixedText 6 e.unwindFillSz ++ ',' ::
  (fixedText 8 e.unwindFee ++ ',' ::
  (e.failureReason.toList ++ ['\n']))))))))))))))))))))))

def record (s : TradeJournal) (entry : JournalEntry) : TradeJournal :=
  { s with buf := s.buf ++ [entry] }

def flush (s : TradeJournal) (stream : FileStream) : TradeJournal :=
  if s.buf = [] ∨ stream = .closed then s
  else { file := s.file ++ stream.taken (s.buf.flatMap writeEntry), buf := [] }

def step (s : TradeJournal) : JournalCall → TradeJournal × List JournalWrite
  | .record entry => (s.record entry, [])
  | .flush stream =>
    (s.flush stream, if s.buf = [] ∨ stream = .closed then [] else [{ stream, entries := s.buf }])

def machine : EventMachine TradeJournal JournalCall JournalWrite where
  step := step

end TradeJournal

open TradeJournal

/-! ## What is written, and when -/

def JournalCall.entry : JournalCall → Option JournalEntry
  | .record entry => some entry
  | .flush _ => none

/-- The call is a flush whose file opens. -/
def JournalCall.opens : JournalCall → Bool
  | .flush stream => stream ≠ .closed
  | .record _ => false

def JournalWrite.text (w : JournalWrite) : List Char := w.entries.flatMap writeEntry

/-- The entries recorded, in order. -/
def recordedEntries (calls : List JournalCall) : List JournalEntry :=
  calls.filterMap JournalCall.entry

/-- The entries recorded before the last flush whose file opened. -/
def flushedEntries (calls : List JournalCall) : List JournalEntry :=
  recordedEntries (calls.rdropWhile fun c => !c.opens)

/-- The file has what its streams took, and every entry recorded was given to a stream or is in the
buffer. -/
structure Written (calls : List JournalCall) (s₀ s : TradeJournal) (writes : List JournalWrite) :
    Prop where
  file : s.file = s₀.file ++ writes.flatMap fun w => w.stream.taken w.text
  once : recordedEntries calls = writes.flatMap JournalWrite.entries ++ s.buf
  flushed : writes.flatMap JournalWrite.entries = flushedEntries calls
  nonempty : ∀ w ∈ writes, w.entries ≠ []

theorem step_flush (s : TradeJournal) (stream : FileStream) :
    machine.step s (.flush stream) =
      if s.buf = [] ∨ stream = .closed then (s, [])
      else ({ file := s.file ++ stream.taken (s.buf.flatMap writeEntry), buf := [] },
        [{ stream, entries := s.buf }]) := by
  simp only [machine, step, flush]
  split_ifs <;> rfl

theorem machine_written (s₀ : TradeJournal) (hempty : s₀.buf = []) (calls : List JournalCall) :
    Written calls s₀ (machine.final s₀ calls) (machine.obs s₀ calls) := by
  induction calls using List.reverseRecOn with
  | nil => exact ⟨by simp, by simp [recordedEntries, hempty], rfl, by simp⟩
  | append_singleton calls c ih =>
    have hrecorded : recordedEntries (calls ++ [c]) =
        recordedEntries calls ++ recordedEntries [c] := List.filterMap_append
    rw [EventMachine.final_snoc, EventMachine.obs_snoc]
    cases c with
    | record entry =>
      have hstep : machine.step (machine.final s₀ calls) (.record entry) =
          ((machine.final s₀ calls).record entry, []) := rfl
      have hflushed : flushedEntries (calls ++ [.record entry]) = flushedEntries calls := by
        rw [flushedEntries, List.rdropWhile_concat_pos _ _ _ rfl, flushedEntries]
      rw [hstep, List.append_nil]
      refine ⟨ih.file, ?_, ih.flushed.trans hflushed.symm, ih.nonempty⟩
      rw [hrecorded, ih.once, List.append_assoc]
      rfl
    | flush stream =>
      have hnone : recordedEntries [.flush stream] = [] := rfl
      rw [hnone, List.append_nil] at hrecorded
      by_cases hclosed : stream = .closed
      · -- nothing happens
        have hstep : machine.step (machine.final s₀ calls) (.flush stream) =
            (machine.final s₀ calls, []) := by
          rw [step_flush, if_pos (.inr hclosed)]
        have hflushed : flushedEntries (calls ++ [.flush stream]) = flushedEntries calls := by
          rw [flushedEntries, List.rdropWhile_concat_pos, flushedEntries]
          simp [JournalCall.opens, hclosed]
        rw [hstep, List.append_nil]
        exact ⟨ih.file, hrecorded.trans ih.once, ih.flushed.trans hflushed.symm, ih.nonempty⟩
      · have hflushed : flushedEntries (calls ++ [.flush stream]) = recordedEntries calls := by
          rw [flushedEntries, List.rdropWhile_concat_neg, hrecorded]
          simp [JournalCall.opens, hclosed]
        by_cases hbuf : (machine.final s₀ calls).buf = []
        · have hstep : machine.step (machine.final s₀ calls) (.flush stream) =
              (machine.final s₀ calls, []) := by
            rw [step_flush, if_pos (.inl hbuf)]
          rw [hstep, List.append_nil]
          refine ⟨ih.file, hrecorded.trans ih.once, ?_, ih.nonempty⟩
          rw [hflushed, ih.once, hbuf, List.append_nil]
        · rw [step_flush, if_neg (not_or.mpr ⟨hbuf, hclosed⟩)]
          refine ⟨?_, ?_, ?_, ?_⟩
          · rw [ih.file, List.flatMap_append, List.append_assoc, List.flatMap_singleton]
            rfl
          · rw [hrecorded, ih.once, List.flatMap_append, List.flatMap_singleton, List.append_nil]
          · rw [hflushed, ih.once, List.flatMap_append, List.flatMap_singleton]
          · exact List.forall_mem_append.mpr ⟨ih.nonempty, List.forall_mem_singleton.mpr hbuf⟩

/-! ## What the streams take -/

/-- The streams take all they are given. Where the last fails in front of the last character, which
is a line feed, nothing is lost either. -/
def AllTaken : List (FileStream × List Char) → Prop
  | [] => True
  | [w] => w.2.length ≤ (w.1.taken w.2).length + 1
  | w :: v :: ws => w.1.taken w.2 = w.2 ∧ AllTaken (v :: ws)

instance : (ws : List (FileStream × List Char)) → Decidable (AllTaken ws)
  | [] => .isTrue trivial
  | [w] => inferInstanceAs (Decidable (w.2.length ≤ (w.1.taken w.2).length + 1))
  | w :: v :: ws =>
    have : Decidable (AllTaken (v :: ws)) := instDecidableAllTaken (v :: ws)
    inferInstanceAs (Decidable (w.1.taken w.2 = w.2 ∧ AllTaken (v :: ws)))

theorem FileStream.taken_start (stream : FileStream) (text : List Char) :
    stream.taken text <+: text := by
  cases stream with
  | closed => exact List.nil_prefix
  | failing room => exact List.take_prefix room text
  | sound => exact List.prefix_refl text

section Streams

/-- What is given to the streams, and what reaches the file. -/
def givenText (ws : List (FileStream × List Char)) : List Char := ws.flatMap fun w => w.2

def takenText (ws : List (FileStream × List Char)) : List Char := ws.flatMap fun w => w.1.taken w.2

variable {w : FileStream × List Char} {ws : List (FileStream × List Char)}

theorem givenText_cons (w : FileStream × List Char) (ws : List (FileStream × List Char)) :
    givenText (w :: ws) = w.2 ++ givenText ws := List.flatMap_cons

theorem takenText_cons (w : FileStream × List Char) (ws : List (FileStream × List Char)) :
    takenText (w :: ws) = w.1.taken w.2 ++ takenText ws := List.flatMap_cons

theorem length_takenText_le (ws : List (FileStream × List Char)) :
    (takenText ws).length ≤ (givenText ws).length := by
  induction ws with
  | nil => exact le_rfl
  | cons w ws ih =>
    rw [takenText_cons, givenText_cons, List.length_append, List.length_append]
    exact Nat.add_le_add (w.1.taken_start w.2).length_le ih

/-- Streams that take as many characters as they are given take all. -/
theorem taken_of_length_le (h : (givenText ws).length ≤ (takenText ws).length) :
    AllTaken ws ∧ takenText ws = givenText ws := by
  induction ws with
  | nil => exact ⟨trivial, rfl⟩
  | cons w ws ih =>
    have hw := (w.1.taken_start w.2).length_le
    have hws := length_takenText_le ws
    rw [takenText_cons, givenText_cons, List.length_append, List.length_append] at h
    obtain ⟨hrest, htext⟩ := ih (by omega)
    have htaken : w.1.taken w.2 = w.2 := (w.1.taken_start w.2).eq_of_length (by omega)
    refine ⟨?_, by rw [takenText_cons, givenText_cons, htaken, htext]⟩
    cases ws with
    | nil =>
      rw [AllTaken, htaken]
      exact Nat.le_succ _
    | cons v ws => exact ⟨htaken, hrest⟩

/-- Where at most one character is lost, it is the last one, or the file ends like the last text. -/
theorem allTaken_or_line (hline : ∀ w ∈ ws, ∃ t, w.2 = t ++ ['\n'])
    (h : (givenText ws).length ≤ (takenText ws).length + 1) :
    AllTaken ws ∨ ∃ t, takenText ws = t ++ ['\n'] := by
  induction ws with
  | nil => exact .inl trivial
  | cons w ws ih =>
    obtain ⟨-, hlines⟩ := List.forall_mem_cons.mp hline
    have hw := (w.1.taken_start w.2).length_le
    have hws := length_takenText_le ws
    rw [takenText_cons, givenText_cons, List.length_append, List.length_append] at h
    cases ws with
    | nil =>
      refine .inl ?_
      have hnil : (givenText []).length = (takenText []).length := rfl
      rw [AllTaken]
      omega
    | cons v ws =>
      have hends (t : List Char) (ht : takenText (v :: ws) = t ++ ['\n']) :
          ∃ t, takenText (w :: v :: ws) = t ++ ['\n'] :=
        ⟨w.1.taken w.2 ++ t, by rw [takenText_cons, ht, List.append_assoc]⟩
      by_cases htaken : w.1.taken w.2 = w.2
      · rw [htaken] at h
        rcases ih hlines (by omega) with hall | ⟨t, ht⟩
        · exact .inl ⟨htaken, hall⟩
        · exact .inr (hends t ht)
      -- the lost character is lost here, so the rest is taken as it is
      · have hshort : (w.1.taken w.2).length < w.2.length :=
          lt_of_le_of_ne hw fun heq => htaken ((w.1.taken_start w.2).eq_of_length heq)
        obtain ⟨-, hrest⟩ := @taken_of_length_le (v :: ws) (by omega)
        obtain ⟨last, hmem, hlast⟩ : ∃ last ∈ v :: ws, ∃ front,
            givenText (v :: ws) = front ++ last.2 := by
          refine ⟨(v :: ws).getLast (by simp), List.getLast_mem _, givenText (v :: ws).dropLast, ?_⟩
          conv_lhs => rw [← (v :: ws).dropLast_append_getLast (by simp)]
          simp [givenText]
        obtain ⟨front, hfront⟩ := hlast
        obtain ⟨t, ht⟩ := hlines last hmem
        refine .inr (hends (front ++ t) ?_)
        rw [hrest, hfront, ht, List.append_assoc]

theorem AllTaken.text (hline : ∀ w ∈ ws, ∃ t, w.2 = t ++ ['\n']) (h : AllTaken ws) :
    takenText ws = givenText ws ∨ takenText ws = (givenText ws).dropLast := by
  induction ws with
  | nil => exact .inl rfl
  | cons w ws ih =>
    obtain ⟨⟨t, ht⟩, hlines⟩ := List.forall_mem_cons.mp hline
    cases ws with
    | nil =>
      simp only [takenText, givenText, List.flatMap_cons, List.flatMap_nil, List.append_nil]
      rw [AllTaken] at h
      have hstart := w.1.taken_start w.2
      by_cases hlength : (w.1.taken w.2).length = w.2.length
      · exact .inl (hstart.eq_of_length hlength)
      · refine .inr ?_
        have hle := hstart.length_le
        rw [List.prefix_iff_eq_take.mp hstart, List.dropLast_eq_take]
        congr 1
        omega
    | cons v ws =>
      obtain ⟨htaken, hrest⟩ := h
      have hne : givenText (v :: ws) ≠ [] := by
        obtain ⟨⟨t, ht⟩, -⟩ := List.forall_mem_cons.mp hlines
        rw [givenText_cons, ht]
        simp
      rw [takenText_cons, givenText_cons, htaken, List.dropLast_append_of_ne_nil hne]
      exact (ih hlines hrest).imp (congrArg _) (congrArg _)

/-- Rows whose texts are given to streams read back from the file exactly when the streams take all
of them and all fields are plain. -/
theorem read_takenText_iff {rows : List Csv.Row} (hrows : rows ≠ [])
    (hlong : ∀ row ∈ rows, row ≠ [] ∧ row ≠ [[]]) (hgiven : givenText ws = Csv.write rows)
    (hline : ∀ w ∈ ws, ∃ t, w.2 = t ++ ['\n']) :
    Csv.read .rowStart (takenText ws) = rows ↔
      AllTaken ws ∧ ∀ row ∈ rows, ∀ field ∈ row, Csv.Plain field := by
  have hread (h : AllTaken ws) : Csv.read .rowStart (takenText ws) = rows ↔
      ∀ row ∈ rows, ∀ field ∈ row, Csv.Plain field := by
    rcases h.text hline with htext | htext
    · rw [htext, hgiven]
      exact Csv.read_write_iff fun row hrow => (hlong row hrow).1
    · rw [htext, hgiven]
      exact Csv.read_dropLast_iff hrows hlong
  refine ⟨fun h => ?_, fun h => (hread h.1).mpr h.2⟩
  have hall : AllTaken ws := by
    have hlength := Csv.length_le_of_read h
    rw [← hgiven] at hlength
    rcases allTaken_or_line hline hlength with hall | ⟨t, ht⟩
    · exact hall
    · refine (taken_of_length_le ?_).1
      rw [ht] at h ⊢
      rw [hgiven]
      exact Csv.length_le_of_read_line h
  exact ⟨hall, (hread hall).mp h⟩

end Streams

/-! ## The file as comma-separated rows -/

namespace TradeJournal

def headerColumns : Csv.Row :=
  ["trade_id", "timestamp_us", "type", "hedge_status", "hl_fill_timestamp_us",
    "lighter_fill_timestamp_us", "hl_side", "hl_fill_price", "hl_fill_size", "hl_fee",
    "lighter_fill_price", "lighter_fill_size", "lighter_fee", "spread_bps", "signal_spread_bps",
    "maker_resting_ms", "hedge_total_ms", "hl_oid", "lt_tx", "unwind_fill_price",
    "unwind_fill_size", "unwind_fee", "failure_reason"].map String.toList

/-- The fields of an entry, in the order of the header. -/
def columns (e : JournalEntry) : Csv.Row :=
  [(toString e.tradeId).toList, (toString e.timestampUs).toList, [e.type], e.hedgeStatus.toList,
    (toString e.hlFillTimestampUs).toList, (toString e.lighterFillTimestampUs).toList, [e.hlSide],
    fixedText 6 e.hlPx, fixedText 6 e.hlSz, fixedText 8 e.hlFee, fixedText 6 e.ltFillPx,
    fixedText 6 e.ltSz, fixedText 8 e.ltFee, fixedText 4 e.spreadBps,
    fixedText 4 e.signalSpreadBps, fixedText 3 e.makerRestingMs, fixedText 3 e.hedgeTotalMs,
    e.hlOid.toList, e.ltTx.toList, fixedText 6 e.unwindFillPx, fixedText 6 e.unwindFillSz,
    fixedText 8 e.unwindFee, e.failureReason.toList]

theorem header_eq : header = Csv.writeRow headerColumns := by
  unfold header
  rw [String.toList_append, String.toList_append, String.toList_append, String.toList_append,
    String.toList_append]
  decide +kernel

theorem writeEntry_eq (e : JournalEntry) : writeEntry e = Csv.writeRow (columns e) := rfl

theorem construct_new (readable : Bool) (stream : FileStream) :
    (construct [] readable stream).file = stream.taken header ∧
      (construct [] readable stream).buf = [] := by
  rw [construct]
  split_ifs with hkept
  · have hclosed : stream = .closed := hkept.resolve_left fun h => h.2 rfl
    rw [hclosed]
    exact ⟨rfl, rfl⟩
  · exact ⟨rfl, rfl⟩

theorem columns_length (e : JournalEntry) : (columns e).length = headerColumns.length := rfl

/-- An entry as the engines build it: the exchanges choose the ids and the message. -/
structure EngineEntry (e : JournalEntry) : Prop where
  type : e.type ∈ ['T', 'U', 'F']
  status : e.hedgeStatus ∈ ["filled", "unconfirmed_then_unwind", "failed"]
  side : e.hlSide ∈ ['B', 'S']
  reason : ∃ message : String, e.failureReason = (message.take 100).toString

theorem reason_empty : ("" : String) = (("" : String).take 100).toString := by decide +kernel

theorem reason_unconfirmed :
    "lighter_unconfirmed" = ("lighter_unconfirmed".take 100).toString := by decide +kernel

/-- The maker engine builds its entries so. -/
theorem recorded_engineEntry (cfg : EngineConfig) (s : MakerHedgeEngine) (e : MakerEvent) :
    ∀ row ∈ MakerHedgeEngine.recorded cfg s e, EngineEntry row := by
  intro row hrow
  cases e with
  | tick nowMs venues =>
    rw [MakerHedgeEngine.recorded, MakerHedgeEngine.onMarketData_journal] at hrow
    cases hrow
  | trade trade venues =>
    rw [MakerHedgeEngine.recorded, MakerHedgeEngine.onTradeEvent_journal] at hrow
    cases hrow
  | fill fillPrice size snapshot oid hlFee venues =>
    by_cases hpath : s.fillPath oid size = .hedge
    · have hside : ∀ b : Bool, (if b then 'B' else 'S') ∈ ['B', 'S'] ∧
          (if b then 'S' else 'B') ∈ ['B', 'S'] := by decide
      rw [MakerHedgeEngine.recorded, MakerHedgeEngine.onHlFill_of_hedge hpath] at hrow
      simp only [MakerHedgeEngine.hedgeFill] at hrow
      generalize venues.lighter.placeIocOrder _ = ack at hrow
      by_cases hfilled : ack.ok ∧ ack.fillConfirmed
      · rw [if_pos hfilled] at hrow
        rw [List.mem_singleton.mp (List.mem_ite_nil_right.mp hrow).2]
        exact ⟨by simp, by simp, (hside _).1, "", reason_empty⟩
      · rw [if_neg hfilled] at hrow
        have heq := List.mem_singleton.mp (List.mem_ite_nil_right.mp hrow).2
        by_cases hok : ack.ok = true
        · rw [heq, if_pos hok]
          exact ⟨by simp, by simp, (hside _).2, _, reason_unconfirmed⟩
        · rw [heq, if_neg hok]
          exact ⟨by simp, by simp, (hside _).2, ack.message, rfl⟩
    · rw [MakerHedgeEngine.recorded, MakerHedgeEngine.onHlFill_journal_of_not_hedge hpath] at hrow
      cases hrow

/-- So does the Lighter-maker engine. -/
theorem lighterMaker_engineEntry (cfg : EngineConfig) {s : LighterMakerTakerEngine}
    (hdef : LighterMaker.DeferredMaker s) (e : LighterMakerEvent) :
    ∀ row ∈ LighterMakerTakerEngine.recorded cfg s e, EngineEntry row := by
  intro row hrow
  cases e with
  | tick nowMs venues =>
    rw [LighterMakerTakerEngine.recorded,
      LighterMakerTakerEngine.onMarketData_journal hdef venues nowMs] at hrow
    cases hrow
  | fill fillPrice size snapshot orderIndex venues =>
    rw [LighterMakerTakerEngine.recorded, LighterMakerTakerEngine.onLighterFill] at hrow
    by_cases active : s.activeLighterOrderIndex = some orderIndex
    · rw [if_pos active] at hrow
      cases pending : s.strategy.pendingMaker with
      | none =>
        simp only [LighterMakerHlHedger.onLighterMakerFill, pending] at hrow
        cases hrow
      | some order =>
        simp only [LighterMakerHlHedger.onLighterMakerFill, pending,
          LighterMakerTakerEngine.executeAction] at hrow
        unfold LighterMakerTakerEngine.executeSendHlTakerHedge at hrow
        simp only at hrow
        generalize venues.hl.placeIocOrder _ = ack at hrow
        by_cases hfilled : ack.ok ∧ 0 < ack.filledSize
        · rw [if_pos hfilled] at hrow
          rw [List.mem_singleton.mp (List.mem_ite_nil_right.mp hrow).2]
          exact ⟨by simp, by simp, by split_ifs <;> simp, "", reason_empty⟩
        · rw [if_neg hfilled] at hrow
          cases hrow
    · rw [if_neg active] at hrow
      cases hrow

/-- The texts in an entry need no quotes. -/
def PlainTexts (e : JournalEntry) : Prop :=
  Csv.Plain e.hlOid.toList ∧ Csv.Plain e.ltTx.toList ∧ Csv.Plain e.failureReason.toList

instance (e : JournalEntry) : Decidable (PlainTexts e) :=
  inferInstanceAs (Decidable (_ ∧ _ ∧ _))

/-- A number is written with digits, a sign and a point. -/
theorem plain_of_numeric {field : List Char}
    (h : ∀ c ∈ field, c.isDigit = true ∨ c = '-' ∨ c = '.') : Csv.Plain field := by
  refine ⟨fun c hc => ?_, fun hhead => ?_⟩
  · rcases h c hc with hdigit | rfl | rfl
    · refine Csv.not_break_iff.mpr ⟨?_, ?_, ?_⟩ <;> rintro rfl <;> cases hdigit
    · rfl
    · rfl
  · rcases h '"' (List.mem_of_mem_head? hhead) with hquote | hquote | hquote <;> cases hquote

theorem plain_fixedText (precision : Nat) (value : ℚ) : Csv.Plain (fixedText precision value) := by
  refine plain_of_numeric fun c hc => ?_
  have hdigits : ∀ n, c ∈ Nat.toDigits 10 n → c.isDigit = true :=
    fun n hn => Nat.isDigit_of_mem_toDigits (by decide) (by decide) hn
  simp only [fixedText, List.mem_append, List.mem_cons, List.leftpad, List.mem_replicate] at hc
  rcases hc with (hsign | hwhole) | rfl | ⟨-, rfl⟩ | hfraction
  · split_ifs at hsign
    · exact .inr (.inl (List.mem_singleton.mp hsign))
    · cases hsign
  · exact .inl (hdigits _ hwhole)
  · exact .inr (.inr rfl)
  · exact .inl rfl
  · exact .inl (hdigits _ hfraction)

theorem plain_repr (n : Int) : Csv.Plain n.repr.toList :=
  plain_of_numeric fun _ hc => (Text.int_chars hc).imp_right .inl

/-- All that can need quotes in a row are its three texts. -/
theorem plain_columns_iff {e : JournalEntry} (h : EngineEntry e) :
    (∀ field ∈ columns e, Csv.Plain field) ↔ PlainTexts e := by
  have htype : Csv.Plain [e.type] := by
    have := h.type
    simp only [List.mem_cons, List.not_mem_nil, or_false] at this
    rcases this with heq | heq | heq <;> rw [heq] <;> decide
  have hstatus : Csv.Plain e.hedgeStatus.toList := by
    have := h.status
    simp only [List.mem_cons, List.not_mem_nil, or_false] at this
    rcases this with heq | heq | heq <;> rw [heq] <;> decide
  have hside : Csv.Plain [e.hlSide] := by
    have := h.side
    simp only [List.mem_cons, List.not_mem_nil, or_false] at this
    rcases this with heq | heq <;> rw [heq] <;> decide
  simp [columns, PlainTexts, plain_repr, plain_fixedText, htype, hstatus, hside]

end TradeJournal

/-- From the journal `s₀` on, the file is the header and one row of 23 fields for each entry recorded
before the last flush that opened it, in order; the others wait in the buffer. -/
structure JournalReadsBack (s₀ : TradeJournal) (calls : List JournalCall) : Prop where
  rows : Csv.read .rowStart (machine.final s₀ calls).file =
    headerColumns :: (flushedEntries calls).map columns
  width : ∀ row ∈ Csv.read .rowStart (machine.final s₀ calls).file, row.length = 23
  once : recordedEntries calls = flushedEntries calls ++ (machine.final s₀ calls).buf

/-- What the streams of a new journal are given: the header, and the rows of each flush. -/
def journalWrites (readable : Bool) (stream : FileStream) (calls : List JournalCall) :
    List (FileStream × List Char) :=
  (stream, header) :: (machine.obs (construct [] readable stream) calls).map fun w =>
    (w.stream, w.text)

/-- A new journal reads back exactly when its streams take all they are given and no id and no
message written to it has a comma or a line break in it or a quote in front. -/
theorem reads_back_iff (readable : Bool) (stream : FileStream) (calls : List JournalCall)
    (built : ∀ e ∈ recordedEntries calls, EngineEntry e) :
    JournalReadsBack (construct [] readable stream) calls ↔
      AllTaken (journalWrites readable stream calls) ∧
        ∀ e ∈ flushedEntries calls, PlainTexts e := by
  obtain ⟨hnew, hempty⟩ := construct_new readable stream
  have hwritten := machine_written (construct [] readable stream) hempty calls
  let rows := headerColumns :: (flushedEntries calls).map columns
  have hfile : (machine.final (construct [] readable stream) calls).file =
      takenText (journalWrites readable stream calls) := by
    rw [hwritten.file, hnew, journalWrites, takenText_cons, takenText, List.flatMap_map]
  have hgiven : givenText (journalWrites readable stream calls) = Csv.write rows := by
    rw [journalWrites, givenText_cons, header_eq, Csv.write_cons, ← hwritten.flushed, givenText,
      List.flatMap_map]
    simp only [JournalWrite.text, funext writeEntry_eq, Csv.write, List.flatMap_map,
      List.flatMap_assoc]
  have hline : ∀ w ∈ journalWrites readable stream calls, ∃ t, w.2 = t ++ ['\n'] := by
    rw [journalWrites, List.forall_mem_cons, List.forall_mem_map]
    refine ⟨⟨(Csv.writeRow headerColumns).dropLast, ?_⟩, fun w hmem => ?_⟩
    · rw [Csv.writeRow_line, ← header_eq]
    have hne : w.entries.map columns ≠ [] := by simpa using hwritten.nonempty w hmem
    refine ⟨(Csv.write (w.entries.map columns)).dropLast, ?_⟩
    rw [Csv.write_line hne, Csv.write, List.flatMap_map, JournalWrite.text, funext writeEntry_eq]
  have hwidth : ∀ row ∈ rows, row.length = 23 := by
    refine List.forall_mem_cons.mpr ⟨rfl, fun row hrow => ?_⟩
    obtain ⟨e, -, rfl⟩ := List.mem_map.mp hrow
    exact columns_length e
  have hlong : ∀ row ∈ rows, row ≠ [] ∧ row ≠ [[]] := by
    intro row hrow
    have hlength := hwidth row hrow
    constructor <;> rintro rfl <;> cases hlength
  have hplain : (∀ row ∈ rows, ∀ field ∈ row, Csv.Plain field) ↔
      ∀ e ∈ flushedEntries calls, PlainTexts e := by
    rw [List.forall_mem_cons, and_iff_right (by decide +kernel), List.forall_mem_map]
    refine forall₂_congr fun e he => plain_columns_iff (built e ?_)
    rw [hwritten.once, hwritten.flushed]
    exact List.mem_append_left _ he
  rw [← hplain, ← read_takenText_iff (List.cons_ne_nil _ _) hlong hgiven hline, ← hfile]
  refine ⟨fun h => h.rows, fun hrows => ⟨hrows, ?_, ?_⟩⟩
  · rw [hrows]
    exact hwidth
  · rw [hwritten.once, hwritten.flushed]

/-- The row of a hedge that Lighter rejected with `message`. -/
def failedEntry (message : String) : JournalEntry where
  timestampUs := 1700000000000000
  type := 'F'
  hedgeStatus := "failed"
  hlSide := 'S'
  hlPx := 100
  hlSz := 1
  spreadBps := 950
  hlOid := "1"
  failureReason := (message.take 100).toString

theorem failedEntry_engine (message : String) : EngineEntry (failedEntry message) :=
  ⟨by simp [failedEntry], by simp [failedEntry], by simp [failedEntry], message, rfl⟩

/-- A flush that does not open the file, and one that fails in front of the last line feed. -/
theorem reads_back_timeout :
    JournalReadsBack (construct [] true .sound)
      [.record (failedEntry "timeout"), .flush .closed, .flush (.failing 161)] :=
  (reads_back_iff true .sound
    [.record (failedEntry "timeout"), .flush .closed, .flush (.failing 161)]
    (List.forall_mem_singleton.mpr (failedEntry_engine _))).mpr
      ⟨⟨rfl, by decide +kernel⟩, by decide +kernel⟩

/-- A reply of the exchange is JSON, and its comma makes a field of its own. -/
theorem json_reason_splits :
    ¬ JournalReadsBack (construct [] true .sound)
      [.record (failedEntry "\x7b\"code\":21733,\"message\":\"accidental price\"\x7d"),
        .flush .sound] := by
  intro h
  exact absurd h.width (by decide +kernel)

end Arb
