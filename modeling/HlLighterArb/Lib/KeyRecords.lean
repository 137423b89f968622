import Mathlib.Data.List.Nodup
import HlLighterArb.Lib.JsonString
import HlLighterArb.Lib.KeyText

/-!
# Lib.KeyRecords

Arrays of objects that a reader finds by one of their keys, under a name for each array.

* `collect pat read s`: what `read` reads at every occurrence of `pat`.
* `Record keys name`: an object whose other keys stand behind the member `name`.
* `collect_record`, `collect_array`, `collect_entries`: the records of a text are collected, one by
  one, array by array.
* `search_array`: a search ends at the first record of an array that it finds something in.
* `exists_first`, `readAfter_back`: the first member with a key is the one the record lists.
-/

namespace KeyText

/-! ## Collecting -/

section Collect

variable {ε β : Type} {pat : List Char} {read : List Char → Option (Except ε (List β))}

/-- What `read` reads at every occurrence of the pattern. Where it reads nothing the loop ends. -/
def collect (pat : List Char) (read : List Char → Option (Except ε (List β))) :
    List Char → Except ε (List β)
  | [] => .ok []
  | c :: s =>
    if pat <+: c :: s then
      match read (c :: s) with
      | none => .ok []
      | some found => do
        let bs ← found
        let more ← collect pat read s
        return bs ++ more
    else collect pat read s

theorem collect_silent {s : List Char} (hs : ¬ pat <:+: s) : collect pat read s = .ok [] := by
  induction s with
  | nil => rfl
  | cons c s ih =>
    obtain ⟨hhere, hlater⟩ := not_or.mp (mt List.infix_cons_iff.mpr hs)
    rw [collect, if_neg hhere, ih hlater]

/-- The loop passes over a text without the pattern. -/
theorem collect_append {c : Char} (hc : c ∉ pat) (hne : pat ≠ []) {s : List Char}
    (hs : ¬ pat <:+: s) (rest : List Char) :
    collect pat read (s ++ c :: rest) = collect pat read rest := by
  induction s with
  | nil =>
    have hhere : ¬ pat <+: [] ++ c :: rest := by
      rw [prefix_append_cons_iff hc, List.prefix_nil]
      exact hne
    rw [List.nil_append] at hhere ⊢
    rw [collect, if_neg hhere]
  | cons d s ih =>
    obtain ⟨hhere, hlater⟩ := not_or.mp (mt List.infix_cons_iff.mpr hs)
    have hhere : ¬ pat <+: (d :: s) ++ c :: rest := by rwa [prefix_append_cons_iff hc]
    rw [List.cons_append] at hhere ⊢
    rw [collect, if_neg hhere, ih hlater]

/-- An occurrence is read, and the loop goes on behind it. -/
theorem collect_here {s : List Char} {found : Except ε (List β)} (hpat : pat <+: s)
    (hread : read s = some found) (hs : s ≠ []) :
    collect pat read s = (do
      let bs ← found
      let more ← collect pat read s.tail
      return bs ++ more) := by
  obtain ⟨c, s, rfl⟩ := List.exists_cons_of_ne_nil hs
  rw [collect, if_pos hpat, hread, List.tail_cons]

end Collect

section Gather

variable {ε β ω : Type}

/-- What the items hold, one after the other, in front of more. The first that fails ends it. -/
def gather (value : ω → Except ε (List β)) (more : Except ε (List β)) :
    List ω → Except ε (List β)
  | [] => more
  | i :: items => do
    let bs ← value i
    let more ← gather value more items
    return bs ++ more

theorem gather_append (value : ω → Except ε (List β)) (more : Except ε (List β))
    (items later : List ω) :
    gather value more (items ++ later) = gather value (gather value more later) items := by
  induction items with
  | nil => rfl
  | cons i items ih => rw [List.cons_append, gather, ih, gather]

/-- All items are gathered exactly when none of them fails. -/
theorem gather_eq_ok_iff {P : ω → Prop} [DecidablePred P] {value : ω → List β} {e : ε}
    {items : List ω} {bs : List β} :
    gather (fun i => if P i then .ok (value i) else .error e) (.ok []) items = .ok bs ↔
      (∀ i ∈ items, P i) ∧ items.flatMap value = bs := by
  induction items generalizing bs with
  | nil => simp [gather]
  | cons i items ih =>
    rw [gather, List.forall_mem_cons, List.flatMap_cons]
    by_cases hi : P i
    · rw [if_pos hi]
      generalize hmore : gather (fun i => if P i then .ok (value i) else .error e) (.ok [])
        items = more at ih ⊢
      cases more with
      | error e' => simpa [hi, bind, Except.bind] using fun hitems _ => ih.mpr ⟨hitems, rfl⟩
      | ok more =>
        obtain ⟨hitems, hflat⟩ := ih.mp rfl
        simpa [hi, bind, Except.bind, pure, Except.pure, hflat] using fun _ => hitems
    · rw [if_neg hi]
      simp [hi, bind, Except.bind]

end Gather

/-! ## Records -/

/-- An object with a member `name` and the other keys behind it. -/
structure Record (keys : List (List Char)) (name : List Char) where
  front : List (Member keys) := []
  value : List Char
  back : List (Field keys)
  silent : ∀ key ∈ keys, ¬ inQuotes key <:+: value
  once : ∀ f ∈ back, f.key ≠ name

namespace Record

variable {keys : List (List Char)} {name : List Char}

/-- The text from the member `name` on, without the closing brace. -/
def fromName (r : Record keys name) : List Char :=
  member name r.value ++ joined (r.back.map Field.text)

def text (r : Record keys name) : List Char :=
  object (r.front.map Member.text ++ member name r.value :: r.back.map Field.text)

variable {key : List Char}

theorem separator_infix_iff (hkey : PlainName key) {c : Char} (hc : c ∈ separators)
    {s rest : List Char} :
    inQuotes key <:+: s ++ c :: rest ↔ inQuotes key <:+: s ∨ inQuotes key <:+: rest :=
  infix_append_cons_iff (separator_not_mem hkey hc) (inQuotes_ne_nil key)

theorem not_infix_nil (key : List Char) : ¬ inQuotes key <:+: [] :=
  fun h => inQuotes_ne_nil key (List.infix_nil.mp h)

theorem comma_not_mem (hkey : PlainName key) : ',' ∉ key := by
  simpa using List.all_eq_true.mp hkey.2.2.2 ',' (by decide)

/-- In front of the member `name` stands none of the keys. -/
theorem text_append (r : Record keys name) (rest : List Char) :
    ∃ before c, c ∈ separators ∧
      (∀ key ∈ keys, PlainName key → ¬ inQuotes key <:+: before) ∧
        r.text ++ rest = before ++ c :: (r.fromName ++ '\x7d' :: rest) := by
  cases hfront : r.front with
  | nil =>
    refine ⟨[], '\x7b', by decide, fun key _ _ => not_infix_nil key, ?_⟩
    simp [text, hfront, object, intercalate_cons, fromName]
  | cons m ms =>
    refine ⟨'\x7b' :: (m.text ++ joined (ms.map Member.text)), ',', by decide, ?_, ?_⟩
    · intro key hmem hkey
      rw [← List.nil_append (_ :: _), separator_infix_iff hkey (by decide),
        infix_joined_iff (comma_not_mem hkey)]
      rintro (h | h | ⟨_, hn, h⟩)
      · exact not_infix_nil key h
      · exact m.silent_text ⟨hkey.2.1, hkey.2.2.1⟩ hmem h
      · obtain ⟨n, -, rfl⟩ := List.mem_map.mp hn
        exact n.silent_text ⟨hkey.2.1, hkey.2.2.1⟩ hmem h
    · simp [text, hfront, object, intercalate_cons, fromName, joined]

/-- Behind the start of the member `name` this key does not come again. -/
theorem not_infix_tail (hname : PlainName name) (hmem : name ∈ keys) (r : Record keys name) :
    ¬ inQuotes name <:+: r.fromName.tail := by
  have htail : r.fromName.tail =
      (name ++ ['"']) ++ ':' :: (r.value ++ joined (r.back.map Field.text)) := by
    simp [fromName, member, inQuotes]
  have hshort : ¬ inQuotes name <:+: name ++ ['"'] := by
    intro h
    have hlen := h.length_le
    simp only [inQuotes, List.length_cons, List.length_append, List.length_nil] at hlen
    omega
  rw [htail, infix_append_cons_iff (not_mem_inQuotes (by decide) hname.2.2.1)
    (inQuotes_ne_nil name), infix_joined_iff (comma_not_mem hname)]
  rintro (h | h | ⟨_, hf, h⟩)
  · exact hshort h
  · exact r.silent name hmem h
  · obtain ⟨f, hback, rfl⟩ := List.mem_map.mp hf
    exact f.silent_text hname hmem (r.once f hback).symm h

end Record

section CollectRecords

variable {ε β : Type} {keys : List (List Char)} {name : List Char}
  {read : List Char → Option (Except ε (List β))}

theorem collect_separator (hname : PlainName name) {c : Char} (hc : c ∈ separators)
    (s : List Char) : collect (inQuotes name) read (c :: s) = collect (inQuotes name) read s :=
  @collect_append ε β _ read c (separator_not_mem hname hc) (inQuotes_ne_nil name) []
    (Record.not_infix_nil name) s

/-- A record is read once, from its member `name` on. -/
theorem collect_record (hname : PlainName name) (hmem : name ∈ keys) (r : Record keys name)
    {rest : List Char} {found : Except ε (List β)}
    (hread : read (r.fromName ++ '\x7d' :: rest) = some found) :
    collect (inQuotes name) read (r.text ++ rest) = (do
      let bs ← found
      let more ← collect (inQuotes name) read rest
      return bs ++ more) := by
  have hne := inQuotes_ne_nil name
  obtain ⟨before, c, hc, hbefore, htext⟩ := r.text_append rest
  have hfrom : r.fromName ≠ [] := by simp [Record.fromName, member, inQuotes]
  have hhere : inQuotes name <+: r.fromName ++ '\x7d' :: rest := by
    rw [Record.fromName, member, List.append_assoc, List.append_assoc]
    exact List.prefix_append _ _
  rw [htext, collect_append (separator_not_mem hname hc) hne (hbefore name hmem hname),
    collect_here hhere hread (by simp), List.tail_append_of_ne_nil hfrom,
    collect_append (separator_not_mem hname (by decide)) hne (r.not_infix_tail hname hmem)]

variable {ω : Type} {record : ω → Record keys name} {value : ω → Except ε (List β)}
  {items : List ω}

/-- The records behind others are read one after the other. -/
theorem collect_joined (hname : PlainName name) (hmem : name ∈ keys)
    (hread : ∀ i ∈ items, ∀ rest,
      read ((record i).fromName ++ '\x7d' :: rest) = some (value i)) (rest : List Char) :
    collect (inQuotes name) read (joined (items.map fun i => (record i).text) ++ rest) =
      gather value (collect (inQuotes name) read rest) items := by
  induction items with
  | nil => rfl
  | cons i items ih =>
    obtain ⟨hi, hitems⟩ := List.forall_mem_cons.mp hread
    have hstep := collect_record hname hmem (record i)
      (hi (joined (items.map fun i => (record i).text) ++ rest))
    rw [← collect_separator hname (show ',' ∈ separators by decide), ih hitems] at hstep
    simpa [joined, gather] using hstep

theorem collect_array (hname : PlainName name) (hmem : name ∈ keys)
    (hread : ∀ i ∈ items, ∀ rest,
      read ((record i).fromName ++ '\x7d' :: rest) = some (value i)) (rest : List Char) :
    collect (inQuotes name) read (array (items.map fun i => (record i).text) ++ rest) =
      gather value (collect (inQuotes name) read rest) items := by
  have hclose : collect (inQuotes name) read (']' :: rest) = collect (inQuotes name) read rest :=
    collect_separator hname (by decide) rest
  cases items with
  | nil => rwa [← collect_separator hname (show '[' ∈ separators by decide)] at hclose
  | cons i items =>
    obtain ⟨hi, hitems⟩ := List.forall_mem_cons.mp hread
    have hstep := collect_record hname hmem (record i)
      (hi (joined (items.map fun i => (record i).text) ++ ']' :: rest))
    rw [← collect_separator hname (show '[' ∈ separators by decide),
      collect_joined hname hmem hitems, hclose] at hstep
    simpa [array, intercalate_cons, gather] using hstep

end CollectRecords

section SearchRecords

variable {β ω : Type} {keys : List (List Char)} {name rest : List Char}
  {f : List Char → Option β} {record : ω → Record keys name} {value : ω → Option β}
  {items : List ω}

theorem search_separator (hf : ∀ t, ¬ inQuotes name <+: t → f t = none) (hname : PlainName name)
    {c : Char} (hc : c ∈ separators) (s : List Char) : Text.search f (c :: s) = Text.search f s :=
  search_append hf (separator_not_mem hname hc) (inQuotes_ne_nil name)
    (Record.not_infix_nil name) s

/-- A search finds nothing in a record but at its member `name`. -/
theorem search_record (hf : ∀ t, ¬ inQuotes name <+: t → f t = none) (hname : PlainName name)
    (hmem : name ∈ keys) (r : Record keys name) (rest : List Char) :
    Text.search f (r.text ++ rest) =
      (f (r.fromName ++ '\x7d' :: rest)).or (Text.search f rest) := by
  have hne := inQuotes_ne_nil name
  obtain ⟨before, c, hc, hbefore, htext⟩ := r.text_append rest
  have hcons : r.fromName = '"' :: r.fromName.tail := by simp [Record.fromName, member, inQuotes]
  rw [htext, search_append hf (separator_not_mem hname hc) hne (hbefore name hmem hname), hcons,
    List.cons_append, Text.search, ← List.cons_append, ← hcons,
    search_append hf (separator_not_mem hname (by decide)) hne (r.not_infix_tail hname hmem)]

theorem search_joined (hf : ∀ t, ¬ inQuotes name <+: t → f t = none) (hname : PlainName name)
    (hmem : name ∈ keys)
    (hread : ∀ i ∈ items, ∀ rest, f ((record i).fromName ++ '\x7d' :: rest) = value i) :
    Text.search f (joined (items.map fun i => (record i).text) ++ rest) =
      (items.findSome? value).or (Text.search f rest) := by
  induction items with
  | nil => rfl
  | cons i items ih =>
    obtain ⟨hi, hitems⟩ := List.forall_mem_cons.mp hread
    have hstep := search_record hf hname hmem (record i)
      (joined (items.map fun i => (record i).text) ++ rest)
    rw [← search_separator hf hname (show ',' ∈ separators by decide), hi, ih hitems] at hstep
    rw [List.findSome?_cons]
    cases hvalue : value i with
    | none => simpa [joined, hvalue] using hstep
    | some b => simpa [joined, hvalue] using hstep

/-- A search ends at the first record of an array that it finds something in. -/
theorem search_array (hf : ∀ t, ¬ inQuotes name <+: t → f t = none) (hname : PlainName name)
    (hmem : name ∈ keys) {before : List Char} (hbefore : ¬ inQuotes name <:+: before)
    (hread : ∀ i ∈ items, ∀ rest, f ((record i).fromName ++ '\x7d' :: rest) = value i) :
    Text.search f (before ++ (array (items.map fun i => (record i).text) ++ rest)) =
      (items.findSome? value).or (Text.search f rest) := by
  have hopen (s : List Char) : Text.search f (before ++ '[' :: s) = Text.search f s :=
    search_append hf (separator_not_mem hname (by decide)) (inQuotes_ne_nil name) hbefore s
  have hclose := search_separator hf hname (show ']' ∈ separators by decide) rest
  cases items with
  | nil =>
    rw [List.map_nil, array, List.cons_append, hopen]
    exact hclose
  | cons i items =>
    have hcomma : joined ((i :: items).map fun i => (record i).text) ++ ']' :: rest =
        ',' :: ((record i).text ++ joined (items.map fun i => (record i).text) ++ ']' :: rest) := by
      simp [joined]
    have hjoined := @search_joined _ _ _ _ (']' :: rest) _ _ _ _ hf hname hmem hread
    rw [hcomma, search_separator hf hname (by decide), hclose] at hjoined
    rw [← hjoined, List.map_cons, array, List.cons_append, hopen, intercalate_cons,
      List.append_assoc, List.singleton_append]

end SearchRecords

/-! ## The members of a record -/

section Lookup

variable {keys : List (List Char)} {name : List Char}

/-- The first member with a key is the one the record lists. -/
theorem exists_first {back known : List (Field keys)} {others : List (Member keys)}
    (hperm : back.Perm (known ++ others.map Member.field)) (hnodup : (known.map Field.key).Nodup)
    (hkeys : ∀ f ∈ known, f.key ∈ keys) {f : Field keys} (hf : f ∈ known) :
    ∃ earlier later, back = earlier ++ f :: later ∧ ∀ g ∈ earlier, g.key ≠ f.key := by
  have hunique : ∀ g ∈ back, g.key = f.key → g = f := by
    intro g hg hkey
    rcases List.mem_append.mp (hperm.mem_iff.mp hg) with hknown | hother
    · exact List.inj_on_of_nodup_map hnodup hknown hf hkey
    · obtain ⟨m, -, rfl⟩ := List.mem_map.mp hother
      have hmem : m.field.key ∈ keys := by
        rw [hkey]
        exact hkeys f hf
      exact absurd hmem m.fresh
  have hmem : f ∈ back := hperm.mem_iff.mpr (List.mem_append_left _ hf)
  clear hperm
  induction back with
  | nil => cases hmem
  | cons g back ih =>
    by_cases hkey : g.key = f.key
    · obtain rfl := hunique g (List.mem_cons_self ..) hkey
      exact ⟨[], back, rfl, by simp⟩
    · have hback : f ∈ back := by
        refine (List.mem_cons.mp hmem).resolve_left ?_
        rintro rfl
        exact hkey rfl
      obtain ⟨earlier, later, rfl, hearlier⟩ :=
        ih (fun h hh => hunique h (List.mem_cons_of_mem g hh)) hback
      exact ⟨g :: earlier, later, rfl, List.forall_mem_cons.mpr ⟨hkey, hearlier⟩⟩

variable {β : Type} {read : List Char → Option β} {b : β} {start tail : List Char}

theorem readAfter_member {key value : List Char} (hvalue : value = start ++ tail)
    {rest : List Char} (hread : read (tail ++ rest) = some b) :
    Text.readAfter (inQuotes key ++ ':' :: start) read (member key value ++ rest) = some b := by
  refine search_self ?_
  have htext : member key value ++ rest = (inQuotes key ++ ':' :: start) ++ (tail ++ rest) := by
    simp [member, hvalue]
  rw [if_pos (htext ▸ List.prefix_append _ _), htext, List.drop_left]
  exact hread

/-- The member `name` itself. -/
theorem readAfter_name (r : Record keys name) (hvalue : r.value = start ++ tail)
    (hread : ∀ c ∈ separators, ∀ rest, read (tail ++ c :: rest) = some b) (rest : List Char) :
    Text.readAfter (inQuotes name ++ ':' :: start) read (r.fromName ++ '\x7d' :: rest) =
      some b := by
  rw [Record.fromName, List.append_assoc]
  refine readAfter_member hvalue ?_
  cases r.back with
  | nil => exact hread _ (by decide) _
  | cons f fs => exact hread ',' (by decide) _

/-- The first member with a key behind `name`. -/
theorem readAfter_back (hkeys : ∀ key ∈ keys, PlainName key) (hname : '"' ∉ name)
    (r : Record keys name) {earlier later : List (Field keys)} {f : Field keys}
    (hback : r.back = earlier ++ f :: later) (hearlier : ∀ g ∈ earlier, g.key ≠ f.key)
    (hkey : f.key ∈ keys) (hvalue : f.value = start ++ tail)
    (hread : ∀ c ∈ separators, ∀ rest, read (tail ++ c :: rest) = some b) (rest : List Char) :
    Text.readAfter (inQuotes f.key ++ ':' :: start) read (r.fromName ++ '\x7d' :: rest) =
      some b := by
  have hf := hkeys f.key hkey
  have hne : f.key ≠ name := r.once f (by simp [hback])
  have htext : r.fromName ++ '\x7d' :: rest =
      (member name r.value ++ joined (earlier.map Field.text)) ++
        ',' :: (f.text ++ (joined (later.map Field.text) ++ '\x7d' :: rest)) := by
    simp [Record.fromName, hback, joined]
  have hbefore : ¬ inQuotes f.key <:+: member name r.value ++ joined (earlier.map Field.text) := by
    rw [infix_joined_iff (Record.comma_not_mem hf), infix_member_iff ⟨hf.2.1, hf.2.2.1⟩ hname]
    rintro ((h | h) | ⟨_, hg, h⟩)
    · exact hne h
    · exact r.silent f.key hkey h
    · obtain ⟨g, hmem, rfl⟩ := List.mem_map.mp hg
      exact g.silent_text hf hkey (hearlier g hmem).symm h
  rw [htext, Text.readAfter, search_append _ (separator_not_mem hf (by decide))
    (inQuotes_ne_nil f.key) hbefore]
  · refine readAfter_member hvalue ?_
    cases later with
    | nil => exact hread _ (by decide) _
    | cons g later => exact hread ',' (by decide) _
  · intro t ht
    exact if_neg fun h => ht ((List.prefix_append _ _).trans h)

/-- Behind `name` the record has the members `known`, one for each of their keys, in any order and
among others. -/
structure Record.Lists (r : Record keys name) (known : List (Field keys)) : Prop where
  keysPlain : ∀ key ∈ keys, PlainName key
  namePlain : '"' ∉ name
  nodup : (known.map Field.key).Nodup
  ofKeys : ∀ f ∈ known, f.key ∈ keys
  anyOrder : ∃ others : List (Member keys), r.back.Perm (known ++ others.map Member.field)

/-- A member the record lists is the one that is read. -/
theorem Record.Lists.readAfter {r : Record keys name} {known : List (Field keys)}
    (h : r.Lists known) {f : Field keys} (hf : f ∈ known) (hvalue : f.value = start ++ tail)
    (hread : ∀ c ∈ separators, ∀ rest, read (tail ++ c :: rest) = some b) (rest : List Char) :
    Text.readAfter (inQuotes f.key ++ ':' :: start) read (r.fromName ++ '\x7d' :: rest) =
      some b := by
  obtain ⟨others, hperm⟩ := h.anyOrder
  obtain ⟨earlier, later, hback, hearlier⟩ := exists_first hperm h.nodup h.ofKeys hf
  exact readAfter_back h.keysPlain h.namePlain r hback hearlier (h.ofKeys f hf) hvalue hread rest

/-- A window that holds the record is read like the text. -/
theorem take_fromName (r : Record keys name) {n : Nat} (h : r.text.length ≤ n) (rest : List Char) :
    ∃ cut, (r.fromName ++ '\x7d' :: rest).take n = r.fromName ++ '\x7d' :: cut := by
  have hlength : r.fromName.length + 1 ≤ r.text.length := by
    obtain ⟨before, c, -, -, htext⟩ := r.text_append []
    rw [List.append_nil] at htext
    rw [htext]
    simp only [List.length_append, List.length_cons, List.length_nil]
    omega
  refine ⟨rest.take (n - (r.fromName.length + 1)), ?_⟩
  rw [List.take_append, List.take_of_length_le (by omega)]
  obtain ⟨m, hm⟩ : ∃ m, n - r.fromName.length = m + 1 := ⟨n - r.fromName.length - 1, by omega⟩
  rw [hm, List.take_succ_cons]
  congr 3
  omega

end Lookup

/-! ## Arrays under keys -/

section Entries

variable {keys : List (List Char)} {name : List Char} {ω : Type}

/-- An array under a key. -/
structure Listing (ω : Type) where
  key : List Char
  plain : '"' ∉ key
  items : List ω

def Listing.text (record : ω → Record keys name) (e : Listing ω) : List Char :=
  member e.key (array (e.items.map fun i => (record i).text))

/-- How an array under a key starts. -/
def opening (key : List Char) : List Char := inQuotes key ++ [':', '[']

variable {key : List Char}

theorem opening_ne_nil (key : List Char) : opening key ≠ [] := List.cons_ne_nil _ _

theorem not_mem_opening (hkey : PlainName key) {c : Char} (hc : c ∈ separators) (hne : c ≠ '[') :
    c ∉ opening key := by
  have hcolon : c ≠ ':' := by
    rintro rfl
    revert hc
    decide
  simp [opening, separator_not_mem hkey hc, hcolon, hne]

/-- An array starts under its own key only, or further behind. -/
theorem not_infix_opening (hkey : PlainName key) {other rest : List Char} (hother : '"' ∉ other)
    (hne : key ≠ other) (hrest : ¬ opening key <:+: rest) :
    ¬ opening key <:+: member other ('[' :: rest) := by
  obtain ⟨k, ks, hcons⟩ := List.exists_cons_of_ne_nil hkey.1
  have hpat : opening key = JsonString.memberPattern key ['['] := by
    simp [opening, inQuotes, JsonString.memberPattern]
  have htext : member other ('[' :: rest) = '"' :: (other ++ '"' :: ':' :: '[' :: rest) := by
    simp [member, inQuotes]
  have hunquoted : ∀ c ∈ other, c ≠ '"' := by
    rintro c hc rfl
    exact hother hc
  rw [htext, List.infix_cons_iff, hpat, JsonString.infix_unquoted_iff hunquoted,
    List.infix_cons_iff, List.infix_cons_iff, List.infix_cons_iff, ← hpat]
  rintro (h | h | h | h | h)
  -- at the opening quote the whole key would stand
  · obtain ⟨t, ht⟩ := h
    have heq : key ++ '"' :: (':' :: '[' :: t) = other ++ '"' :: ':' :: '[' :: rest := by
      simpa [opening, inQuotes] using ht
    have htake := congrArg (List.takeWhile fun c => decide (c ≠ '"')) heq
    rw [takeWhile_quote hkey.2.1, takeWhile_quote hother] at htake
    exact hne htake
  -- at the closing quote its first character would be the colon
  · have hhead : k = ':' := by
      have htail := (List.cons_prefix_cons.mp h).2
      rw [hcons] at htail
      exact (List.cons_prefix_cons.mp htail).1
    exact hkey.2.2.1 (hcons ▸ hhead ▸ List.mem_cons_self ..)
  · exact absurd (List.cons_prefix_cons.mp h).1 (by decide)
  · exact absurd (List.cons_prefix_cons.mp h).1 (by decide)
  · exact hrest h

variable {record : ω → Record keys name}

/-- None of the records has an array under the key. -/
def Listing.Silent (record : ω → Record keys name) (key : List Char) (e : Listing ω) : Prop :=
  ∀ i ∈ e.items, ¬ opening key <:+: (record i).text

theorem Listing.silent_text (hkey : PlainName key) {e : Listing ω} (hne : key ≠ e.key)
    (hsilent : e.Silent record key) : ¬ opening key <:+: e.text record := by
  refine not_infix_opening hkey e.plain hne ?_
  rw [infix_append_cons_iff (not_mem_opening hkey (by decide) (by decide)) (opening_ne_nil key)]
  have hnil : ¬ opening key <:+: [] := fun h => opening_ne_nil key (List.infix_nil.mp h)
  refine not_or.mpr ⟨?_, hnil⟩
  cases hitems : e.items with
  | nil => exact hnil
  | cons i is =>
    rw [Silent, hitems, List.forall_mem_cons] at hsilent
    rw [List.map_cons, intercalate_cons, infix_append_joined_iff
      (not_mem_opening hkey (by decide) (by decide)) (opening_ne_nil key)]
    rintro (h | ⟨_, hj, h⟩)
    · exact hsilent.1 h
    · obtain ⟨j, hmem, rfl⟩ := List.mem_map.mp hj
      exact hsilent.2 j hmem h

theorem not_infix_entries (hkey : PlainName key) {entries : List (Listing ω)}
    (hentries : ∀ e ∈ entries, key ≠ e.key ∧ e.Silent record key) :
    ¬ opening key <:+: [','].intercalate (entries.map (Listing.text record)) := by
  cases entries with
  | nil => exact fun h => opening_ne_nil key (List.infix_nil.mp h)
  | cons e es =>
    obtain ⟨he, hes⟩ := List.forall_mem_cons.mp hentries
    rw [List.map_cons, intercalate_cons, infix_append_joined_iff
      (not_mem_opening hkey (by decide) (by decide)) (opening_ne_nil key)]
    rintro (h | ⟨_, hm, h⟩)
    · exact Listing.silent_text hkey he.1 he.2 h
    · obtain ⟨d, hd, rfl⟩ := List.mem_map.mp hm
      exact Listing.silent_text hkey (hes d hd).1 (hes d hd).2 h

/-- The array under a key is found behind those under other keys. -/
theorem find_entry (hkey : PlainName key) {header footer : List Char}
    {earlier later : List (Listing ω)} {e : Listing ω} (hheader : ¬ opening key <:+: header)
    (hearlier : ∀ d ∈ earlier, key ≠ d.key ∧ d.Silent record key) (he : e.key = key) :
    Text.find (opening key)
        (header ++ (object ((earlier ++ e :: later).map (Listing.text record)) ++ footer)) =
      some (e.text record ++ (joined (later.map (Listing.text record)) ++ '\x7d' :: footer)) := by
  have hne := opening_ne_nil key
  have hskip {c : Char} (hc : c ∈ separators) (hopen : c ≠ '[') {s : List Char}
      (hs : ¬ opening key <:+: s) (rest : List Char) :
      Text.find (opening key) (s ++ c :: rest) = Text.find (opening key) rest :=
    find_append (not_mem_opening hkey hc hopen) hne hs rest
  have hself : Text.find (opening key)
      (e.text record ++ (joined (later.map (Listing.text record)) ++ '\x7d' :: footer)) =
        some (e.text record ++ (joined (later.map (Listing.text record)) ++ '\x7d' :: footer)) := by
    refine search_self (if_pos ?_)
    rw [Listing.text, he]
    simp [opening, member, array]
  have hentries := not_infix_entries hkey hearlier
  cases earlier with
  | nil =>
    have hskip := hskip (show '\x7b' ∈ separators by decide) (by decide) hheader
      (e.text record ++ (joined (later.map (Listing.text record)) ++ '\x7d' :: footer))
    rw [← hself, ← hskip]
    simp [object, intercalate_cons]
  | cons d ds =>
    have hbefore : ¬ opening key <:+: header ++
        '\x7b' :: [','].intercalate ((d :: ds).map (Listing.text record)) := by
      rw [infix_append_cons_iff (not_mem_opening hkey (by decide) (by decide)) hne]
      exact not_or.mpr ⟨hheader, hentries⟩
    have hskip := hskip (show ',' ∈ separators by decide) (by decide) hbefore
      (e.text record ++ (joined (later.map (Listing.text record)) ++ '\x7d' :: footer))
    rw [← hself, ← hskip]
    simp [object, intercalate_cons, joined]

theorem find_entry_none (hkey : PlainName key) {header footer : List Char}
    {entries : List (Listing ω)} (hheader : ¬ opening key <:+: header)
    (hfooter : ¬ opening key <:+: footer)
    (hentries : ∀ e ∈ entries, key ≠ e.key ∧ e.Silent record key) :
    Text.find (opening key) (header ++ (object (entries.map (Listing.text record)) ++ footer)) =
      none := by
  have hne := opening_ne_nil key
  have hbrace {c : Char} (hc : c = '\x7b' ∨ c = '\x7d') : c ∉ opening key := by
    rcases hc with rfl | rfl <;> exact not_mem_opening hkey (by decide) (by decide)
  rw [Text.find_eq_none_iff, object, List.cons_append, List.append_assoc, List.singleton_append,
    infix_append_cons_iff (hbrace (.inl rfl)) hne, infix_append_cons_iff (hbrace (.inr rfl)) hne]
  rintro (h | h | h)
  · exact hheader h
  · exact not_infix_entries hkey hentries h
  · exact hfooter h

section CollectEntries

variable {ε β : Type} {read : List Char → Option (Except ε (List β))}
  {value : ω → Except ε (List β)}

theorem collect_entry (hname : PlainName name) (hmem : name ∈ keys) {e : Listing ω}
    (hne : name ≠ e.key)
    (hread : ∀ i ∈ e.items, ∀ rest,
      read ((record i).fromName ++ '\x7d' :: rest) = some (value i)) (rest : List Char) :
    collect (inQuotes name) read (e.text record ++ rest) =
      gather value (collect (inQuotes name) read rest) e.items := by
  have hbefore : ¬ inQuotes name <:+: inQuotes e.key := by
    rwa [inQuotes_infix_iff hname.2.1 e.plain]
  rw [Listing.text, member, List.append_assoc, List.cons_append,
    collect_append (not_mem_inQuotes (by decide) hname.2.2.1) (inQuotes_ne_nil name) hbefore]
  exact collect_array hname hmem hread rest

/-- The arrays of an object are collected one after the other. -/
theorem collect_entries (hname : PlainName name) (hmem : name ∈ keys) {entries : List (Listing ω)}
    (hne : ∀ e ∈ entries, name ≠ e.key)
    (hread : ∀ e ∈ entries, ∀ i ∈ e.items, ∀ rest,
      read ((record i).fromName ++ '\x7d' :: rest) = some (value i)) (rest : List Char) :
    collect (inQuotes name) read (joined (entries.map (Listing.text record)) ++ rest) =
      gather value (collect (inQuotes name) read rest) (entries.flatMap Listing.items) := by
  induction entries with
  | nil => rfl
  | cons e es ih =>
    obtain ⟨hkey, hkeys⟩ := List.forall_mem_cons.mp hne
    obtain ⟨he, hes⟩ := List.forall_mem_cons.mp hread
    have hstep := collect_entry hname hmem hkey he (joined (es.map (Listing.text record)) ++ rest)
    rw [← collect_separator hname (show ',' ∈ separators by decide), ih hkeys hes] at hstep
    simpa [joined, gather_append] using hstep

end CollectEntries

end Entries

end KeyText
