import HlLighterArb.Lib.JsonText
import HlLighterArb.Ws.HlWsPost

/-!
# HlLighterArb.Ws.PostPayload

What `extract_json_value` reads from a message that is JSON, and the body that `on_message` hands to
the caller of `post_action`.

* `scanNested_enclosed`: the scan of an object or array passes over balanced text.
* `extractJsonValue_of_first`: the value behind the first occurrence of a key is read as its text.
* `extractJsonValue_member`: so is the value of a member, wherever in the message it is.
* `responseBody_of_members`: the body for a message with a type and a payload.
-/

namespace Arb

open JsonString (Literal Escaped)
open JsonText

/-! ## Strings -/

/-- A string is scanned up to the quote that closes it. -/
theorem scanString_escaped {chars : List Char} (h : Escaped chars) (rest : List Char) :
    scanString false (chars ++ '"' :: rest) = some (chars ++ ['"']) := by
  induction h with
  | nil => simp [scanString]
  | plain hquote hbackslash _ ih => simp [scanString, hquote, hbackslash, ih]
  | escape c _ ih => simp [scanString, ih]

/-! ## Objects and arrays -/

/-- The brackets that `scanNested` counts. -/
def IsPair (opening close : Char) : Prop :=
  opening = '\x7b' ∧ close = '\x7d' ∨ opening = '[' ∧ close = ']'

section Nested

variable {opening close : Char} {s t : List Char} {depth : Int}

theorem IsPair.quote_ne (h : IsPair opening close) :
    opening ≠ '"' ∧ close ≠ '"' ∧ close ≠ opening := by
  rcases h with ⟨rfl, rfl⟩ | ⟨rfl, rfl⟩ <;> decide

theorem IsPair.ne_of_plain (h : IsPair opening close) {c : Char} (hc : Plain c) :
    c ≠ '"' ∧ c ≠ opening ∧ c ≠ close := by
  rcases h with ⟨rfl, rfl⟩ | ⟨rfl, rfl⟩ <;> refine ⟨?_, ?_, ?_⟩ <;> rintro rfl <;>
    exact hc (by decide)

/-- Inside a string brackets do not count. -/
theorem scanNested_escaped {chars : List Char} (h : Escaped chars) (rest : List Char) :
    scanNested opening close depth true false (chars ++ '"' :: rest) =
      (scanNested opening close depth false false rest).map (chars ++ '"' :: ·) := by
  induction h with
  | nil => simp [scanNested]
  | plain hquote hbackslash _ ih =>
    simp [scanNested, hquote, hbackslash, ih, Function.comp_def]
  | escape c _ ih => simp [scanNested, ih, Function.comp_def]

/-- The scan passes over a text wherever it is within an object or array. -/
def Passes (opening close : Char) (s : List Char) : Prop :=
  ∀ depth : Int, 0 < depth → ∀ rest, scanNested opening close depth false false (s ++ rest) =
    (scanNested opening close depth false false rest).map (s ++ ·)

theorem Passes.append (hs : Passes opening close s) (ht : Passes opening close t) :
    Passes opening close (s ++ t) := by
  intro depth hdepth rest
  rw [List.append_assoc, hs depth hdepth, ht depth hdepth, Option.map_map]
  simp only [Function.comp_def, List.append_assoc]

theorem Passes.single {c : Char} (hquote : c ≠ '"') (hopening : c ≠ opening) (hclose : c ≠ close) :
    Passes opening close [c] := by
  intro depth _ rest
  rw [List.singleton_append, scanNested, if_neg Bool.false_ne_true, if_neg hquote,
    if_neg hopening, if_neg hclose]
  rfl

theorem Passes.literal (l : Literal) : Passes opening close l.text := by
  intro depth _ rest
  have hquote : ∀ rest, scanNested opening close depth false false ('"' :: rest) =
      (scanNested opening close depth true false rest).map ('"' :: ·) := fun _ => rfl
  rw [Literal.text, List.cons_append, List.append_assoc, List.singleton_append, hquote,
    scanNested_escaped l.escaped, Option.map_map]
  simp only [Function.comp_def, List.cons_append, List.append_assoc, List.nil_append]

/-- The counted brackets lead one level down, and back up. -/
theorem Passes.counted (hpair : IsPair opening close) (hs : Passes opening close s) :
    Passes opening close (opening :: (s ++ [close])) := by
  intro depth hdepth rest
  obtain ⟨hquote, hquote', hne⟩ := hpair.quote_ne
  have hback : depth + 1 - 1 = depth := Int.add_sub_cancel depth 1
  have hclose : scanNested opening close (depth + 1) false false (close :: rest) =
      (scanNested opening close depth false false rest).map (close :: ·) := by
    rw [scanNested, if_neg Bool.false_ne_true, if_neg hquote', if_neg hne, if_pos rfl, hback,
      if_neg hdepth.ne']
  rw [List.cons_append, List.append_assoc, List.singleton_append, scanNested,
    if_neg Bool.false_ne_true, if_neg hquote, if_pos rfl, hs (depth + 1) (by omega), hclose,
    Option.map_map, Option.map_map]
  simp only [Function.comp_def, List.cons_append, List.append_assoc, List.nil_append]

/-- Brackets of either kind are passed over, with what is in them. -/
theorem Passes.pair {op cl : Char} (hpair : IsPair opening close) (h : IsPair op cl)
    (hs : Passes opening close s) : Passes opening close (op :: (s ++ [cl])) := by
  by_cases hsame : op = opening
  · obtain ⟨rfl, rfl⟩ : op = opening ∧ cl = close := by
      rcases hpair with ⟨rfl, rfl⟩ | ⟨rfl, rfl⟩ <;> rcases h with ⟨rfl, rfl⟩ | ⟨rfl, rfl⟩ <;>
        revert hsame <;> decide
    exact hs.counted hpair
  · have hother : op ≠ close ∧ cl ≠ opening ∧ cl ≠ close := by
      rcases hpair with ⟨rfl, rfl⟩ | ⟨rfl, rfl⟩ <;> rcases h with ⟨rfl, rfl⟩ | ⟨rfl, rfl⟩ <;>
        revert hsame <;> decide
    obtain ⟨hquote, hquote', -⟩ := h.quote_ne
    have hfront : Passes opening close [op] := .single hquote hsame hother.1
    have hback : Passes opening close [cl] := .single hquote' hother.2.1 hother.2.2
    exact hfront.append (hs.append hback)

/-- Within an object or array the scan passes over balanced text. -/
theorem Passes.balanced (hpair : IsPair opening close) (hs : Balanced s) :
    Passes opening close s := by
  induction hs with
  | nil => exact fun _ _ rest => by simp
  | @plain c s hc _ ih =>
    obtain ⟨hquote, hopening, hclose⟩ := hpair.ne_of_plain hc
    exact (Passes.single hquote hopening hclose).append ih
  | string l _ ih => exact (Passes.literal l).append ih
  | brackets _ _ ihinner ih =>
    simpa using (ihinner.pair hpair (.inr ⟨rfl, rfl⟩)).append ih
  | braces _ _ ihinner ih =>
    simpa using (ihinner.pair hpair (.inl ⟨rfl, rfl⟩)).append ih

/-- From its opening bracket on, the scan ends at the bracket that matches it. -/
theorem scanNested_enclosed (hpair : IsPair opening close) (hs : Balanced s) (rest : List Char) :
    scanNested opening close 0 false false (opening :: (s ++ close :: rest)) =
      some (opening :: (s ++ [close])) := by
  obtain ⟨hquote, hquote', hne⟩ := hpair.quote_ne
  have hclose : scanNested opening close 1 false false (close :: rest) = some [close] := by
    rw [scanNested, if_neg Bool.false_ne_true, if_neg hquote', if_neg hne, if_pos rfl]
    rfl
  rw [scanNested, if_neg Bool.false_ne_true, if_neg hquote, if_pos rfl, zero_add,
    Passes.balanced hpair hs 1 Int.one_pos, hclose]
  rfl

end Nested

/-! ## Values -/

/-- What may stand behind a value that is not the whole text. -/
def EndsValue (behind : List Char) : Prop :=
  ∃ c rest, behind = c :: rest ∧ (c = ',' ∨ c = '\x7d' ∨ c = ']')

/-- A number or a word is read up to what ends it. -/
theorem takeWhile_bare {s behind : List Char} (hs : ∀ c ∈ s, Bare c) (hbehind : EndsValue behind) :
    (s ++ behind).takeWhile (fun c => ¬ (c = ',' ∨ c = '\x7d' ∨ c = ']')) = s := by
  obtain ⟨c, rest, rfl, hc⟩ := hbehind
  have hall : ∀ c ∈ s, decide (¬ (c = ',' ∨ c = '\x7d' ∨ c = ']')) = true := by
    intro c hc
    rw [decide_eq_true_eq]
    rintro (rfl | rfl | rfl) <;> exact hs _ hc (by decide)
  have hstop : ¬ decide (¬ (c = ',' ∨ c = '\x7d' ∨ c = ']')) = true := by
    rw [decide_eq_true_eq, not_not]
    exact hc
  rw [List.takeWhile_append_of_pos hall, List.takeWhile_cons, if_neg hstop, List.append_nil]

/-- What `extract_json_value` reads once it is at the value. -/
theorem extractJsonValue_at {msg key behind : List Char} {c : Char} {text : List Char}
    (hfirst : Text.FirstAt key msg (key ++ ':' :: (c :: text ++ behind)))
    (hc : c ≠ ' ' ∧ c ≠ ':') :
    extractJsonValue msg key =
      if c = '"' then (scanString false (text ++ behind)).map (c :: ·)
      else if c = '\x7b' then scanNested '\x7b' '\x7d' 0 false false (c :: (text ++ behind))
      else if c = '[' then scanNested '[' ']' 0 false false (c :: (text ++ behind))
      else some ((c :: (text ++ behind)).takeWhile
        fun c => ¬ (c = ',' ∨ c = '\x7d' ∨ c = ']')) := by
  have hdrop : (':' :: (c :: text ++ behind)).dropWhile (fun c => c = ' ' ∨ c = ':') =
      c :: (text ++ behind) := by
    rw [List.dropWhile_cons_of_pos (by decide), List.cons_append, List.dropWhile_cons,
      if_neg (by simpa using hc)]
  rw [extractJsonValue, Text.after, Text.find_eq_some_iff.mpr hfirst, Option.map_some,
    List.drop_left]
  simp only [hdrop]

/-- A number or a word behind the first occurrence of the key is read as it is written. -/
theorem extractJsonValue_bare {msg key s behind : List Char} (hne : s ≠ [])
    (hs : ∀ c ∈ s, Bare c) (hbehind : EndsValue behind)
    (hfirst : Text.FirstAt key msg (key ++ ':' :: (s ++ behind))) :
    extractJsonValue msg key = some s := by
  obtain ⟨c, s, rfl⟩ := List.exists_cons_of_ne_nil hne
  have hc : ∀ d ∈ ['"', '\x7b', '[', ' ', ':'], c ≠ d := by
    rintro d hd rfl
    refine hs c (List.mem_cons_self ..) ?_
    simp only [List.mem_cons, List.not_mem_nil, or_false] at hd ⊢
    tauto
  rw [extractJsonValue_at hfirst ⟨hc _ (by simp), hc _ (by simp)⟩, if_neg (hc _ (by simp)),
    if_neg (hc _ (by simp)), if_neg (hc _ (by simp)), ← List.cons_append, takeWhile_bare hs hbehind]

/-- The value behind the first occurrence of a key is read as its text. -/
theorem extractJsonValue_of_first {msg key behind : List Char} {v : Json}
    (hbehind : EndsValue behind)
    (hfirst : Text.FirstAt key msg (key ++ ':' :: (v.text ++ behind))) :
    extractJsonValue msg key = some v.text := by
  cases v with
  | string l =>
    rw [extractJsonValue_at hfirst (by decide), if_pos rfl, List.append_assoc,
      List.singleton_append, scanString_escaped l.escaped]
    rfl
  | number n =>
    exact extractJsonValue_bare n.text_ne_nil n.bare hbehind hfirst
  | word w => exact extractJsonValue_bare w.text_ne_nil w.bare hbehind hfirst
  | array items =>
    have hinner := Balanced.intercalate (balanced_items items)
    rw [Json.text] at hfirst ⊢
    rw [extractJsonValue_at hfirst (by decide), if_neg (by decide), if_neg (by decide), if_pos rfl,
      List.append_assoc, List.singleton_append, scanNested_enclosed (.inr ⟨rfl, rfl⟩) hinner]
  | object fields =>
    have hinner := Balanced.intercalate (balanced_fields fields)
    rw [Json.text] at hfirst ⊢
    rw [extractJsonValue_at hfirst (by decide), if_neg (by decide), if_pos rfl,
      List.append_assoc, List.singleton_append, scanNested_enclosed (.inl ⟨rfl, rfl⟩) hinner]

/-! ## Members -/

/-- The first occurrence of a key is the key of a member with this value, which may be anywhere in
the message. -/
def FirstMember (doc : Json) (key : Literal) (v : Json) : Prop :=
  ∃ before behind, MemberAt key v doc before behind ∧
    Text.FirstAt key.text doc.text (key.text ++ ':' :: (v.text ++ behind))

theorem FirstMember.extract {doc v : Json} {key : Literal} (h : FirstMember doc key v) :
    extractJsonValue doc.text key.text = some v.text := by
  obtain ⟨before, behind, hmember, hfirst⟩ := h
  obtain ⟨c, rest, hbehind, hc⟩ := hmember.behind_head
  exact extractJsonValue_of_first ⟨c, rest, hbehind, hc.imp_right .inl⟩ hfirst

/-- `extract_json_value` returns the text of the value, no more and no less. -/
theorem extractJsonValue_member {doc v : Json} {key : Literal} {before behind : List Char}
    (hmember : MemberAt key v doc before behind)
    (hfirst : Text.FirstAt key.text doc.text (key.text ++ ':' :: (v.text ++ behind))) :
    extractJsonValue doc.text key.text = some v.text :=
  FirstMember.extract ⟨before, behind, hmember, hfirst⟩

/-- A response whose payload has a quote and brackets in a string. -/
def postMessage : Json :=
  .object [(.ofText "channel", .string (.ofText "post")),
    (.ofText "data", .object [(.ofText "id", .number { whole := 7 }),
      (.ofText "response", .object [(.ofText "type", .string (.ofText "action")),
        (.ofText "payload", .array [.object [(.ofText "error", .string (.ofText "\"\x7d]"))],
          .word .null])])])]

theorem extractJsonValue_member_post :
    extractJsonValue postMessage.text (Literal.ofText "payload").text =
      some "[\x7b\"error\":\"\\\"\x7d]\"\x7d,null]".toList := by
  have hmember := MemberAt.field [(.ofText "channel", .string (.ofText "post"))] (.ofText "data") []
    (MemberAt.field [(.ofText "id", .number { whole := 7 })] (.ofText "response") []
      (@MemberAt.here (.ofText "payload")
        (.array [.object [(.ofText "error", .string (.ofText "\"\x7d]"))], .word .null])
        [(.ofText "type", .string (.ofText "action"))] []))
  have hread := extractJsonValue_member hmember (Text.find_eq_some_iff.mp (by decide +kernel))
  exact hread.trans (by decide +kernel)

/-- The body that answers a request: the payload, wrapped when the response is an error. -/
theorem responseBody_of_members {doc type payload : Json}
    (htype : FirstMember doc (.ofText "type") type)
    (hpayload : FirstMember doc (.ofText "payload") payload) :
    responseBody doc.text =
      if type.text = "\"error\"".toList then makeErrorBody (String.ofList payload.text)
      else String.ofList payload.text := by
  have hreadType : extractJsonValue doc.text "\"type\"".toList = some type.text := htype.extract
  have hreadPayload : extractJsonValue doc.text "\"payload\"".toList = some payload.text :=
    hpayload.extract
  rw [responseBody, hreadType, hreadPayload]
  dsimp only
  by_cases herror : type.text = "\"error\"".toList
  · rw [if_pos herror, beq_iff_eq.mpr herror]
  · rw [if_neg herror, beq_eq_false_iff_ne.mpr herror]

end Arb
