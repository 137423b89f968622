import HlLighterArb.Lib.Text

/-!
# Lib.JsonString

Searching a JSON text for a member with a given key, where the text holds string literals with any
characters in them.

* `Literal`: the characters between the quotes of a string, escaped somehow.
* `escape`: one way to write every text as a literal.
* `memberPattern key value`: the text of the key, a colon, and how the value starts.
* `Mismatched pat seg`: the pattern cannot start within `seg`, whatever follows it.
* `infix_literal_iff`: nor can it within a literal that is a value.
-/

namespace JsonString

/-- The characters of a string: a quote stands behind a backslash only. -/
inductive Escaped : List Char → Prop where
  | nil : Escaped []
  | plain {c : Char} {cs : List Char} (quote : c ≠ '"') (backslash : c ≠ '\\') (rest : Escaped cs) :
      Escaped (c :: cs)
  | escape (c : Char) {cs : List Char} (rest : Escaped cs) : Escaped ('\\' :: c :: cs)

structure Literal where
  chars : List Char
  escaped : Escaped chars

def Literal.text (l : Literal) : List Char :=
  '"' :: (l.chars ++ ['"'])

/-- A text with a backslash before each quote and each backslash. -/
def escape : List Char → List Char
  | [] => []
  | c :: cs => if c = '"' ∨ c = '\\' then '\\' :: c :: escape cs else c :: escape cs

theorem escape_escaped (cs : List Char) : Escaped (escape cs) := by
  induction cs with
  | nil => exact .nil
  | cons c cs ih =>
    rw [escape]
    split_ifs with h
    · exact .escape c ih
    · obtain ⟨hquote, hbackslash⟩ := not_or.mp h
      exact .plain hquote hbackslash ih

def Literal.ofText (s : String) : Literal where
  chars := escape s.toList
  escaped := escape_escaped s.toList

/-- `"key":` and how the value starts. -/
def memberPattern (key value : List Char) : List Char :=
  '"' :: (key ++ '"' :: ':' :: value)

/-! ## Where a pattern cannot start -/

/-- Neither the pattern nor a part of the segment, read from any of its characters on, starts like
the other. -/
def Mismatched (pat seg : List Char) : Prop :=
  ∀ t ∈ seg.tails, t = [] ∨ ¬ t <+: pat ∧ ¬ pat <+: t

instance (pat seg : List Char) : Decidable (Mismatched pat seg) :=
  inferInstanceAs (Decidable (∀ t ∈ seg.tails, t = [] ∨ ¬ t <+: pat ∧ ¬ pat <+: t))

theorem Mismatched.tail {pat seg : List Char} {c : Char} (h : Mismatched pat (c :: seg)) :
    Mismatched pat seg := by
  intro t ht
  refine h t ?_
  rw [List.mem_tails] at ht ⊢
  exact ht.trans (List.suffix_cons c seg)

theorem infix_append_iff {pat seg : List Char} (h : Mismatched pat seg) (rest : List Char) :
    pat <:+: seg ++ rest ↔ pat <:+: rest := by
  induction seg with
  | nil => rfl
  | cons c seg ih =>
    rw [List.cons_append, List.infix_cons_iff, ih h.tail]
    refine or_iff_right fun hat => ?_
    have hself : c :: seg ∈ (c :: seg).tails := (List.mem_tails _ _).mpr (List.suffix_refl _)
    rcases h _ hself with hnil | ⟨hleft, hright⟩
    · cases hnil
    · have hwhole : c :: seg <+: c :: (seg ++ rest) := List.prefix_append (c :: seg) rest
      rcases List.prefix_or_prefix_of_prefix hat hwhole with h' | h'
      · exact hright h'
      · exact hleft h'

/-- A pattern that starts with a quote does not start where there is none. -/
theorem infix_unquoted_iff {key value seg : List Char} (h : ∀ c ∈ seg, c ≠ '"') (rest : List Char) :
    memberPattern key value <:+: seg ++ rest ↔ memberPattern key value <:+: rest := by
  induction seg with
  | nil => rfl
  | cons c seg ih =>
    obtain ⟨hc, hseg⟩ := List.forall_mem_cons.mp h
    rw [List.cons_append, List.infix_cons_iff, ih hseg]
    refine or_iff_right fun hat => hc ?_
    exact (List.cons_prefix_cons.mp hat).1.symm

/-! ## Literals -/

/-- What a key may consist of. -/
def PlainKey (key : List Char) : Prop :=
  ∀ c ∈ key, c ≠ '"' ∧ c ≠ '\\'

-- over the members: an instance that is inferred may go through all characters
instance (key : List Char) : Decidable (PlainKey key) :=
  List.decidableBAll (fun c => c ≠ '"' ∧ c ≠ '\\') key

/-- A plain key up to its quote starts a string only as the whole of it. -/
theorem eq_of_key_prefix {key chars t rest : List Char} (hkey : PlainKey key)
    (hchars : Escaped chars) (h : key ++ '"' :: t <+: chars ++ '"' :: rest) :
    key = chars ∧ t <+: rest := by
  induction hchars generalizing key with
  | nil =>
    cases key with
    | nil => exact ⟨rfl, (List.cons_prefix_cons.mp h).2⟩
    | cons c key =>
      exact absurd (List.cons_prefix_cons.mp h).1 (hkey c (List.mem_cons_self ..)).1
  | plain hquote _ _ ih =>
    cases key with
    | nil => exact absurd (List.cons_prefix_cons.mp h).1.symm hquote
    | cons c key =>
      obtain ⟨hc, htail⟩ := List.cons_prefix_cons.mp h
      obtain ⟨hkey, ht⟩ := ih (fun d hd => hkey d (List.mem_cons_of_mem _ hd)) htail
      exact ⟨by rw [hc, hkey], ht⟩
  | escape c _ _ =>
    cases key with
    | nil => cases (List.cons_prefix_cons.mp h).1
    | cons d key =>
      exact absurd (List.cons_prefix_cons.mp h).1 (hkey d (List.mem_cons_self ..)).2

section Values

variable {key value rest : List Char}

/-- What follows a value: neither a colon nor the start of the key. -/
def EndsValue (key rest : List Char) : Prop :=
  ∀ c ∈ rest.head?, c ≠ ':' ∧ key.head? ≠ some c

instance : Decidable (EndsValue key rest) :=
  @Option.decidableForallMem _ (fun c => c ≠ ':' ∧ key.head? ≠ some c) inferInstance rest.head?

theorem EndsValue.append {seg : List Char} (h : EndsValue key seg) (hne : seg ≠ [])
    (rest : List Char) : EndsValue key (seg ++ rest) := by
  obtain ⟨c, seg, rfl⟩ := List.exists_cons_of_ne_nil hne
  exact h

/-- The pattern does not start at a quote with a string and the end of a value behind it. -/
theorem not_prefix_quote {chars : List Char} (hkey : PlainKey key) (hrest : EndsValue key rest)
    (hchars : Escaped chars) :
    ¬ memberPattern key value <+: '"' :: (chars ++ '"' :: rest) := by
  intro h
  obtain ⟨rfl, ht⟩ := eq_of_key_prefix hkey hchars (List.cons_prefix_cons.mp h).2
  cases rest with
  | nil => simp at ht
  | cons c rest =>
    exact (hrest c rfl).1 (List.cons_prefix_cons.mp ht).1.symm

/-- The closing quote and the characters before it. -/
theorem infix_closing_iff {chars : List Char} (hkey : PlainKey key) (hne : key ≠ [])
    (hrest : EndsValue key rest) (hchars : Escaped chars) :
    memberPattern key value <:+: chars ++ '"' :: rest ↔ memberPattern key value <:+: rest := by
  induction hchars with
  | nil =>
    rw [List.nil_append, List.infix_cons_iff]
    refine or_iff_right fun h => ?_
    obtain ⟨k, key, rfl⟩ := List.exists_cons_of_ne_nil hne
    cases rest with
    | nil => simp [memberPattern] at h
    | cons c rest =>
      have hhead : k = c := (List.cons_prefix_cons.mp (List.cons_prefix_cons.mp h).2).1
      exact (hrest c rfl).2 (by rw [hhead]; rfl)
  | plain hquote _ _ ih =>
    rw [List.cons_append, List.infix_cons_iff, ih]
    exact or_iff_right fun h => hquote (List.cons_prefix_cons.mp h).1.symm
  | @escape c cs hcs ih =>
    rw [List.cons_append, List.cons_append, List.infix_cons_iff, List.infix_cons_iff, ih]
    rw [or_iff_right, or_iff_right]
    · intro h
      obtain rfl : '"' = c := (List.cons_prefix_cons.mp h).1
      exact not_prefix_quote hkey hrest hcs h
    · intro h
      cases (List.cons_prefix_cons.mp h).1

/-- A member is not found within a literal that is a value. -/
theorem infix_literal_iff (hkey : PlainKey key) (hne : key ≠ []) (hrest : EndsValue key rest)
    (l : Literal) :
    memberPattern key value <:+: l.text ++ rest ↔ memberPattern key value <:+: rest := by
  rw [Literal.text, List.cons_append, List.append_assoc, List.singleton_append,
    List.infix_cons_iff, infix_closing_iff hkey hne hrest l.escaped]
  exact or_iff_right (not_prefix_quote hkey hrest l.escaped)

end Values

end JsonString
