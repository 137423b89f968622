import Mathlib.Data.List.Infix
import Mathlib.Tactic.Common

/-!
# Lib.Csv

Comma-separated rows. The reader takes a field that starts with a quote as quoted, with a quote
inside written twice, and any other field as it stands; a row ends at a line feed, a carriage return
or both. The writer quotes nothing.

* `read`: the rows of a text, by one pass over it.
* `Plain`: the texts that need no quotes.
* `read_write_iff`: unquoted rows read back exactly when all their fields are plain.
* `read_dropLast_iff`: so they do without the line feed at the end.
* `length_le_of_read`, `length_le_of_read_line`: a text that reads back as rows lacks nothing else.
-/

namespace Csv

abbrev Row := List (List Char)

/-- Where the reader is: at the start of a row, behind a carriage return, at the start of another
field, inside a field, inside quotes, or behind a quote inside quotes. -/
inductive Mode where
  | rowStart
  | afterReturn
  | fieldStart
  | plain
  | quoted
  | closing
  deriving DecidableEq

/-- `c` in front of the first field. -/
def addChar (c : Char) : List Row → List Row
  | (field :: row) :: rows => ((c :: field) :: row) :: rows
  | rows => rows

/-- `field` in front of the first row. -/
def addField (field : List Char) : List Row → List Row
  | row :: rows => (field :: row) :: rows
  | [] => [[field]]

/-- What follows the end of a field, or a character that belongs to one. -/
def isBreak (c : Char) : Bool := c = ',' || c = '\n' || c = '\r'

def read : Mode → List Char → List Row
  | .rowStart, [] => []
  | .afterReturn, [] => []
  | _, [] => [[[]]]
  | mode, c :: s =>
    if mode = .quoted then
      if c = '"' then read .closing s else addChar c (read .quoted s)
    else if mode = .closing ∧ c = '"' then addChar c (read .quoted s)
    else if mode = .afterReturn ∧ c = '\n' then read .rowStart s
    else if c = ',' then addField [] (read .fieldStart s)
    else if c = '\n' then [[]] :: read .rowStart s
    else if c = '\r' then [[]] :: read .afterReturn s
    else if mode ≠ .plain ∧ mode ≠ .closing ∧ c = '"' then read .quoted s
    else addChar c (read .plain s)

/-- The fields with commas between them, on a line of their own. -/
def writeRow : Row → List Char
  | [] => ['\n']
  | [field] => field ++ ['\n']
  | field :: row => field ++ ',' :: writeRow row

def write (rows : List Row) : List Char := rows.flatMap writeRow

/-- No comma and no line break, and no quote in front. -/
def Plain (field : List Char) : Prop :=
  (∀ c ∈ field, isBreak c = false) ∧ field.head? ≠ some '"'

instance (field : List Char) : Decidable (Plain field) :=
  have := List.decidableBAll (fun c => isBreak c = false) field
  inferInstanceAs (Decidable (_ ∧ _))

/-- The first field of what was read. -/
def first (rows : List Row) : Option (List Char) := rows.head?.bind List.head?

/-- How many quotes a text starts with. -/
def quotes (s : List Char) : Nat := (s.takeWhile (· = '"')).length

/-- A quoted field and an empty one. -/
example : read .rowStart "a,\"b,\"\"c\"\n1,\n".toList =
    [["a".toList, "b,\"c".toList], ["1".toList, []]] := by decide

/-! ## One field -/

section Field

variable {mode : Mode} {field s t : List Char} {row : Row} {rows : List Row} {c : Char}

/-- What is read behind a field that ends at `c`. -/
def readBreak (c : Char) (s : List Char) : List Row :=
  if c = ',' then addField [] (read .fieldStart s)
  else if c = '\n' then [[]] :: read .rowStart s
  else [[]] :: read .afterReturn s

theorem not_break_iff : isBreak c = false ↔ c ≠ ',' ∧ c ≠ '\n' ∧ c ≠ '\r' := by
  simp [isBreak, and_assoc]

theorem readBreak_shape (c : Char) (s : List Char) :
    ∃ row rows, readBreak c s = ([] :: row) :: rows := by
  unfold readBreak addField
  split_ifs
  · cases read .fieldStart s <;> exact ⟨_, _, rfl⟩
  · exact ⟨_, _, rfl⟩
  · exact ⟨_, _, rfl⟩

theorem foldr_addChar (field : List Char) :
    field.foldr addChar (([] :: row) :: rows) = (field :: row) :: rows := by
  induction field with
  | nil => rfl
  | cons c field ih => rw [List.foldr_cons, ih]; rfl

theorem read_plain_break (h : isBreak c = true) (s : List Char) :
    read .plain (c :: s) = readBreak c s := by
  simp only [isBreak, Bool.or_eq_true, decide_eq_true_eq] at h
  rcases h with (rfl | rfl) | rfl <;> simp [read, readBreak]

/-- A text without breaks is read up to the break behind it. -/
theorem read_plain (h : ∀ x ∈ field, isBreak x = false) (hc : isBreak c = true) :
    read .plain (field ++ c :: s) = field.foldr addChar (readBreak c s) := by
  induction field with
  | nil => exact read_plain_break hc s
  | cons x field ih =>
    obtain ⟨hx, hfield⟩ := List.forall_mem_cons.mp h
    obtain ⟨hcomma, hline, hreturn⟩ := not_break_iff.mp hx
    rw [List.cons_append, read, List.foldr_cons, ih hfield]
    simp [hcomma, hline, hreturn]

/-- The positions a field is read from. -/
def AtStart (mode : Mode) : Prop := mode = .rowStart ∨ mode = .fieldStart

theorem read_start (hmode : AtStart mode) (h : Plain field) (hc : isBreak c = true) :
    read mode (field ++ c :: s) = field.foldr addChar (readBreak c s) := by
  obtain ⟨hplain, hhead⟩ := h
  cases field with
  | nil =>
    have hquote : c ≠ '"' := by rintro rfl; cases hc
    simp only [isBreak, Bool.or_eq_true, decide_eq_true_eq] at hc
    rcases hmode with rfl | rfl <;> rcases hc with (rfl | rfl) | rfl <;>
      simp [read, readBreak]
  | cons x field =>
    obtain ⟨hx, hfield⟩ := List.forall_mem_cons.mp hplain
    obtain ⟨hcomma, hline, hreturn⟩ := not_break_iff.mp hx
    have hquote : x ≠ '"' := by simpa using hhead
    rw [List.cons_append, List.foldr_cons, ← read_plain hfield hc]
    rcases hmode with rfl | rfl <;> simp [read, hcomma, hline, hreturn, hquote]

/-- A quote in front opens a quoted field. -/
theorem read_quote (hmode : AtStart mode) (s : List Char) :
    read mode ('"' :: s) = read .quoted s := by
  rcases hmode with rfl | rfl <;> simp [read]

theorem first_addChar (c : Char) (rows : List Row) :
    first (addChar c rows) = (first rows).map (c :: ·) := by
  rcases rows with _ | ⟨_ | ⟨field, row⟩, rows⟩ <;> rfl

theorem first_readBreak (c : Char) (s : List Char) : first (readBreak c s) = some [] := by
  obtain ⟨row, rows, heq⟩ := readBreak_shape c s
  rw [heq]
  rfl

theorem quotes_cons (c : Char) (s : List Char) :
    quotes (c :: s) = if c = '"' then quotes s + 1 else 0 := by
  unfold quotes
  split_ifs with hc <;> simp [hc]

/-- Between quotes a field starts with no more quotes than the text does. -/
theorem quotes_le (s : List Char) :
    (∀ field, first (read .quoted s) = some field → quotes field ≤ quotes s) ∧
      ∀ field, first (read .closing s) = some field → quotes field ≤ quotes s := by
  induction s with
  | nil =>
    refine ⟨fun field h => ?_, fun field h => ?_⟩ <;>
    · have hfield : [] = field := by simpa [read, first] using h
      rw [← hfield]
  | cons c s ih =>
    refine ⟨fun field h => ?_, fun field h => ?_⟩
    · by_cases hc : c = '"'
      · have hclosing : first (read .closing s) = some field := by simpa [read, hc] using h
        rw [quotes_cons, if_pos hc]
        exact (ih.2 field hclosing).trans (Nat.le_succ _)
      · have hquoted : first (addChar c (read .quoted s)) = some field := by
          simpa [read, hc] using h
        rw [first_addChar, Option.map_eq_some_iff] at hquoted
        obtain ⟨rest, -, rfl⟩ := hquoted
        rw [quotes_cons, if_neg hc]
        exact Nat.zero_le _
    · by_cases hc : c = '"'
      · have hquoted : first (addChar c (read .quoted s)) = some field := by
          simpa [read, hc] using h
        rw [first_addChar, Option.map_eq_some_iff] at hquoted
        obtain ⟨rest, hrest, rfl⟩ := hquoted
        simp only [quotes_cons, if_pos hc]
        exact Nat.succ_le_succ (ih.1 rest hrest)
      · -- the field ends here, or goes on with a character that is no quote
        have hzero : quotes field = 0 := by
          by_cases hbreak : isBreak c = true
          · have hempty : first (readBreak c s) = some field := by
              simp only [isBreak, Bool.or_eq_true, decide_eq_true_eq] at hbreak
              rcases hbreak with (rfl | rfl) | rfl <;> simpa [read, readBreak] using h
            rw [first_readBreak] at hempty
            cases hempty
            rfl
          · obtain ⟨hcomma, hline, hreturn⟩ := not_break_iff.mp (by simpa using hbreak)
            have hplain : first (addChar c (read .plain s)) = some field := by
              simpa [read, hc, hcomma, hline, hreturn] using h
            rw [first_addChar, Option.map_eq_some_iff] at hplain
            obtain ⟨rest, -, rfl⟩ := hplain
            rw [quotes_cons, if_neg hc]
        rw [hzero]
        exact Nat.zero_le _

theorem quotes_append_break (hc : isBreak c = true) (field s : List Char) :
    quotes (field ++ c :: s) = quotes field := by
  have hquote : c ≠ '"' := by rintro rfl; cases hc
  induction field with
  | nil => rw [List.nil_append, quotes_cons, if_neg hquote]; rfl
  | cons x field ih => rw [List.cons_append, quotes_cons, quotes_cons, ih]

/-- A field that is not plain reads back as something else. -/
theorem plain_of_first (hmode : AtStart mode) (hc : isBreak c = true)
    (h : first (read mode (field ++ c :: s)) = some field) : Plain field := by
  by_cases hhead : field.head? = some '"'
  · -- a quoted field loses at least the quote in front
    obtain ⟨rest, rfl⟩ : ∃ rest, field = '"' :: rest := by
      cases field with
      | nil => cases hhead
      | cons x rest => exact ⟨rest, by simpa using hhead⟩
    rw [List.cons_append, read_quote hmode] at h
    have hle := (quotes_le _).1 _ h
    rw [quotes_append_break hc, quotes_cons, if_pos rfl] at hle
    omega
  · refine ⟨fun x hx => ?_, hhead⟩
    by_contra hbreak
    -- the field is cut off at its first break
    obtain ⟨b, hfind⟩ : ∃ b, field.find? isBreak = some b :=
      Option.isSome_iff_exists.mp (List.find?_isSome.mpr ⟨x, hx, by simpa using hbreak⟩)
    obtain ⟨hb, p, q, rfl, hnone⟩ := List.find?_eq_some_iff_append.mp hfind
    have hp : ∀ y ∈ p, isBreak y = false := fun y hy => by simpa using hnone y hy
    have hplain : Plain p := by
      refine ⟨hp, fun hquote => hhead ?_⟩
      rw [List.head?_append, hquote]
      rfl
    obtain ⟨row, rows, hshape⟩ := readBreak_shape b (q ++ c :: s)
    rw [List.append_assoc, List.cons_append, read_start hmode hplain hb, hshape,
      foldr_addChar] at h
    have hlength : p.length = (p ++ b :: q).length := congrArg List.length (Option.some.inj h)
    simp at hlength

end Field

/-! ## Rows -/

section Rows

variable {mode : Mode} {row : Row} {s : List Char}

theorem readBreak_comma (field s : List Char) :
    field.foldr addChar (readBreak ',' s) = addField field (read .fieldStart s) := by
  have hbreak : readBreak ',' s = addField [] (read .fieldStart s) := rfl
  rw [hbreak]
  cases read .fieldStart s <;> exact foldr_addChar field

theorem readBreak_line (field s : List Char) :
    field.foldr addChar (readBreak '\n' s) = [field] :: read .rowStart s :=
  foldr_addChar field

theorem writeRow_cons_cons (field next : List Char) (row : Row) :
    writeRow (field :: next :: row) ++ s = field ++ ',' :: (writeRow (next :: row) ++ s) := by
  rw [writeRow, List.append_assoc, List.cons_append]
  exact List.cons_ne_nil _ _

theorem read_writeRow (hmode : AtStart mode) (hne : row ≠ []) (h : ∀ field ∈ row, Plain field) :
    read mode (writeRow row ++ s) = row :: read .rowStart s := by
  induction row generalizing mode with
  | nil => exact absurd rfl hne
  | cons field row ih =>
    obtain ⟨hfield, hrow⟩ := List.forall_mem_cons.mp h
    cases row with
    | nil =>
      rw [writeRow, List.append_assoc, List.singleton_append, read_start hmode hfield rfl,
        readBreak_line]
    | cons next row =>
      rw [writeRow_cons_cons, read_start hmode hfield rfl, readBreak_comma,
        ih (.inr rfl) (List.cons_ne_nil _ _) hrow, addField]

/-- A row that reads back has plain fields only. -/
theorem plain_of_read (hmode : AtStart mode)
    (h : (read mode (writeRow row ++ s)).head? = some row) : ∀ field ∈ row, Plain field := by
  induction row generalizing mode with
  | nil => simp
  | cons field row ih =>
    have hfirst : first (read mode (writeRow (field :: row) ++ s)) = some field := by
      rw [first, h]
      rfl
    cases row with
    | nil =>
      rw [writeRow, List.append_assoc, List.singleton_append] at hfirst
      exact List.forall_mem_singleton.mpr (plain_of_first hmode rfl hfirst)
    | cons next row =>
      rw [writeRow_cons_cons] at h hfirst
      have hplain := plain_of_first hmode rfl hfirst
      rw [read_start hmode hplain rfl, readBreak_comma] at h
      refine List.forall_mem_cons.mpr ⟨hplain, ih (.inr rfl) ?_⟩
      -- the rest of the row is what is read behind the comma
      generalize read .fieldStart (writeRow (next :: row) ++ s) = rows at h
      cases rows with
      | nil => simp [addField] at h
      | cons other rows => simpa [addField] using h

/-- Rows that are written without quotes read back exactly when all their fields are plain. -/
theorem read_write_iff {rows : List Row} (hne : ∀ row ∈ rows, row ≠ []) :
    read .rowStart (write rows) = rows ↔ ∀ row ∈ rows, ∀ field ∈ row, Plain field := by
  induction rows with
  | nil => simp [write, read]
  | cons row rows ih =>
    obtain ⟨hrow, hrows⟩ := List.forall_mem_cons.mp hne
    have hwrite : write (row :: rows) = writeRow row ++ write rows := List.flatMap_cons
    rw [hwrite, List.forall_mem_cons]
    constructor
    · intro h
      have hplain : ∀ field ∈ row, Plain field := plain_of_read (.inl rfl) (by rw [h]; rfl)
      rw [read_writeRow (.inl rfl) hrow hplain] at h
      exact ⟨hplain, (ih hrows).mp (List.cons.inj h).2⟩
    · rintro ⟨hplain, hrest⟩
      rw [read_writeRow (.inl rfl) hrow hplain, (ih hrows).mpr hrest]

theorem writeRow_ne_nil (row : Row) : writeRow row ≠ [] := by
  cases row with
  | nil => exact List.cons_ne_nil _ _
  | cons field row => cases row <;> simp [writeRow]

theorem write_cons (row : Row) (rows : List Row) : write (row :: rows) = writeRow row ++ write rows :=
  List.flatMap_cons

theorem writeRow_line (row : Row) : (writeRow row).dropLast ++ ['\n'] = writeRow row := by
  induction row with
  | nil => rfl
  | cons field row ih =>
    cases row with
    | nil => rw [writeRow, List.dropLast_concat]
    | cons next row =>
      have hwrite : writeRow (field :: next :: row) = (field ++ [',']) ++ writeRow (next :: row) := by
        simp [writeRow]
      rw [hwrite, List.dropLast_append_of_ne_nil (writeRow_ne_nil _), List.append_assoc, ih]

theorem write_line {rows : List Row} (hne : rows ≠ []) :
    (write rows).dropLast ++ ['\n'] = write rows := by
  have hlast := rows.dropLast_append_getLast hne
  have hwrite : write rows = write rows.dropLast ++ writeRow (rows.getLast hne) := by
    conv_lhs => rw [← hlast]
    simp [write]
  rw [hwrite, List.dropLast_append_of_ne_nil (writeRow_ne_nil _), List.append_assoc, writeRow_line]

end Rows

/-! ## Texts that lack something -/

section Lengths

variable {mode : Mode} {row : Row} {rows : List Row} {s : List Char}

theorem length_write_cons (row : Row) (rows : List Row) :
    (write (row :: rows)).length = (writeRow row).length + (write rows).length := by
  rw [write_cons, List.length_append]

theorem length_addChar (c : Char) (rows : List Row) :
    (write (addChar c rows)).length ≤ (write rows).length + 1 := by
  rcases rows with _ | ⟨_ | ⟨field, row⟩, rows⟩
  · exact Nat.zero_le _
  · exact Nat.le_succ _
  · have hrow : (writeRow ((c :: field) :: row)).length = (writeRow (field :: row)).length + 1 := by
      cases row <;> rfl
    rw [addChar, length_write_cons, length_write_cons, hrow]
    omega

theorem length_addField (rows : List Row) :
    (write (addField [] rows)).length ≤ (write rows).length + 1 := by
  cases rows with
  | nil => exact le_rfl
  | cons row rows =>
    rw [addField, length_write_cons, length_write_cons]
    cases row with
    | nil => simp [writeRow]
    | cons field row =>
      rw [writeRow, List.nil_append, List.length_cons]
      · omega
      · exact List.cons_ne_nil _ _

theorem length_line (rows : List Row) : (write ([[]] :: rows)).length = (write rows).length + 1 := by
  rw [length_write_cons, Nat.add_comm]
  rfl

/-- Every character is read once, and what is open at the end is one field more. -/
theorem length_read_le (mode : Mode) (s : List Char) :
    (write (read mode s)).length ≤ s.length + 1 := by
  induction s generalizing mode with
  | nil => cases mode <;> decide
  | cons c s ih =>
    have hchar (mode : Mode) := (length_addChar c (read mode s)).trans (Nat.succ_le_succ (ih mode))
    have hmore (mode : Mode) := (ih mode).trans (Nat.le_succ _)
    rw [read, List.length_cons]
    split_ifs
    · exact hmore _
    · exact hchar _
    · exact hchar _
    · exact hmore _
    · exact (length_addField _).trans (Nat.succ_le_succ (ih _))
    · exact (length_line _).trans_le (Nat.succ_le_succ (ih _))
    · exact (length_line _).trans_le (Nat.succ_le_succ (ih _))
    · exact hmore _
    · exact hchar _

/-- The reader is not between quotes. -/
def Mode.Open (mode : Mode) : Prop := mode ≠ .quoted ∧ mode ≠ .closing

theorem read_cons_of_open (hmode : mode.Open) (c : Char) (s : List Char) :
    read mode (c :: s) =
      if mode = .afterReturn ∧ c = '\n' then read .rowStart s
      else if c = ',' then addField [] (read .fieldStart s)
      else if c = '\n' then [[]] :: read .rowStart s
      else if c = '\r' then [[]] :: read .afterReturn s
      else if mode ≠ .plain ∧ mode ≠ .closing ∧ c = '"' then read .quoted s
      else addChar c (read .plain s) := by
  rw [read, if_neg hmode.1, if_neg fun h => hmode.2 h.1]

/-- A line feed at the end closes the last row. -/
theorem length_read_line_le (hmode : mode.Open) (s : List Char) :
    (write (read mode (s ++ ['\n']))).length ≤ s.length + 1 := by
  induction s generalizing mode with
  | nil =>
    cases mode with
    | quoted => exact absurd rfl hmode.1
    | closing => exact absurd rfl hmode.2
    | _ => decide
  | cons c s ih =>
    have hrow : Mode.Open .rowStart := ⟨by decide, by decide⟩
    have hreturn : Mode.Open .afterReturn := ⟨by decide, by decide⟩
    have hfield : Mode.Open .fieldStart := ⟨by decide, by decide⟩
    have hplain : Mode.Open .plain := ⟨by decide, by decide⟩
    rw [List.cons_append, read_cons_of_open hmode, List.length_cons]
    split_ifs
    · exact (ih hrow).trans (Nat.le_succ _)
    · exact (length_addField _).trans (Nat.succ_le_succ (ih hfield))
    · exact (length_line _).trans_le (Nat.succ_le_succ (ih hrow))
    · exact (length_line _).trans_le (Nat.succ_le_succ (ih hreturn))
    · refine (length_read_le .quoted (s ++ ['\n'])).trans_eq ?_
      rw [List.length_append, List.length_singleton]
    · exact (length_addChar _ _).trans (Nat.succ_le_succ (ih hplain))

/-- Where the open row at the end is all that is read of no character, a line feed closes it. -/
theorem read_line (hmode : mode.Open) (h : s.length < (write (read mode s)).length) :
    read mode (s ++ ['\n']) = read mode s := by
  induction s generalizing mode with
  | nil =>
    cases mode with
    | quoted => exact absurd rfl hmode.1
    | closing => exact absurd rfl hmode.2
    | rowStart => cases h
    | afterReturn => cases h
    | _ => rfl
  | cons c s ih =>
    have hrow : Mode.Open .rowStart := ⟨by decide, by decide⟩
    have hreturn : Mode.Open .afterReturn := ⟨by decide, by decide⟩
    have hfield : Mode.Open .fieldStart := ⟨by decide, by decide⟩
    have hplain : Mode.Open .plain := ⟨by decide, by decide⟩
    rw [read_cons_of_open hmode, List.length_cons] at h
    rw [List.cons_append, read_cons_of_open hmode, read_cons_of_open hmode]
    split_ifs at h ⊢
    · exact ih hrow (Nat.lt_of_succ_lt h)
    · rw [ih hfield (Nat.lt_of_succ_lt_succ (h.trans_le (length_addField _)))]
    · rw [ih hrow (Nat.lt_of_succ_lt_succ (h.trans_eq (length_line _)))]
    · rw [ih hreturn (Nat.lt_of_succ_lt_succ (h.trans_eq (length_line _)))]
    -- a quote in front is lost
    · exact absurd (length_read_le .quoted s) (not_le.mpr h)
    · rw [ih hplain (Nat.lt_of_succ_lt_succ (h.trans_le (length_addChar _ _)))]

theorem length_le_of_read (h : read .rowStart s = rows) :
    (write rows).length ≤ s.length + 1 :=
  h ▸ length_read_le .rowStart s

theorem length_le_of_read_line (h : read .rowStart (s ++ ['\n']) = rows) :
    (write rows).length ≤ (s ++ ['\n']).length := by
  rw [List.length_append, ← h]
  exact length_read_line_le ⟨by decide, by decide⟩ s

end Lengths

section Unterminated

variable {mode : Mode} {field : List Char} {row : Row} {rows : List Row}

theorem read_plain_end (h : ∀ c ∈ field, isBreak c = false) : read .plain field = [[field]] := by
  induction field with
  | nil => rfl
  | cons c field ih =>
    obtain ⟨hc, hfield⟩ := List.forall_mem_cons.mp h
    obtain ⟨hcomma, hline, hreturn⟩ := not_break_iff.mp hc
    simp [read, hcomma, hline, hreturn, ih hfield, addChar]

/-- A field at the end of the text. -/
theorem read_start_end (hmode : AtStart mode) (hne : mode = .rowStart → field ≠ [])
    (h : Plain field) : read mode field = [[field]] := by
  cases field with
  | nil =>
    rcases hmode with rfl | rfl
    · exact absurd rfl (hne rfl)
    · rfl
  | cons c field =>
    obtain ⟨hc, hfield⟩ := List.forall_mem_cons.mp h.1
    obtain ⟨hcomma, hline, hreturn⟩ := not_break_iff.mp hc
    have hquote : c ≠ '"' := by simpa using h.2
    have hrest := read_plain_end hfield
    rcases hmode with rfl | rfl <;> simp [read, hcomma, hline, hreturn, hquote, hrest, addChar]

theorem read_row_end (hmode : AtStart mode) (hne : row ≠ []) (hlong : mode = .rowStart → row ≠ [[]])
    (h : ∀ field ∈ row, Plain field) : read mode (writeRow row).dropLast = [row] := by
  induction row generalizing mode with
  | nil => exact absurd rfl hne
  | cons field row ih =>
    obtain ⟨hfield, hrow⟩ := List.forall_mem_cons.mp h
    cases row with
    | nil =>
      rw [writeRow, List.dropLast_concat]
      refine read_start_end hmode (fun hstart => ?_) hfield
      rintro rfl
      exact hlong hstart rfl
    | cons next row =>
      have hwrite : (writeRow (field :: next :: row)).dropLast =
          field ++ ',' :: (writeRow (next :: row)).dropLast := by
        rw [writeRow, List.dropLast_append_of_ne_nil (List.cons_ne_nil _ _),
          List.dropLast_cons_of_ne_nil (writeRow_ne_nil _)]
        exact List.cons_ne_nil _ _
      rw [hwrite, read_start hmode hfield rfl, readBreak_comma,
        ih (.inr rfl) (List.cons_ne_nil _ _) nofun hrow, addField]

/-- Rows read back without their last line feed exactly when all their fields are plain. -/
theorem read_dropLast_iff (hrows : rows ≠ []) (hlong : ∀ row ∈ rows, row ≠ [] ∧ row ≠ [[]]) :
    read .rowStart (write rows).dropLast = rows ↔ ∀ row ∈ rows, ∀ field ∈ row, Plain field := by
  constructor
  · intro h
    refine (read_write_iff fun row hrow => (hlong row hrow).1).mp ?_
    have hline := write_line hrows
    have hfull : (write rows).dropLast.length <
        (write (read .rowStart (write rows).dropLast)).length := by
      rw [h]
      conv_rhs => rw [← hline]
      rw [List.length_append]
      exact Nat.lt_succ_self _
    have hread := read_line ⟨by decide, by decide⟩ hfull
    rw [← hline, hread, h]
  · intro h
    induction rows with
    | nil => exact absurd rfl hrows
    | cons row rows ih =>
      obtain ⟨⟨hne, hrow⟩, hlong⟩ := List.forall_mem_cons.mp hlong
      obtain ⟨hplain, hrest⟩ := List.forall_mem_cons.mp h
      cases rows with
      | nil =>
        rw [write_cons, show write [] = [] from rfl, List.append_nil]
        exact read_row_end (.inl rfl) hne (fun _ => hrow) hplain
      | cons next rows =>
        have hnonempty : write (next :: rows) ≠ [] := by
          rw [write_cons]
          exact List.append_ne_nil_of_left_ne_nil (writeRow_ne_nil _) _
        rw [write_cons, List.dropLast_append_of_ne_nil hnonempty,
          read_writeRow (.inl rfl) hne hplain, ih (List.cons_ne_nil _ _) hlong hrest]

end Unterminated

end Csv
