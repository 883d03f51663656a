import AqEngine.Lib.Uuid

namespace AqEngine.Lib

open List

variable {α β : Type}

/-- No word of the code is the beginning of another one. -/
def PrefixFree (code : α → List β) : Prop := ∀ a b r s, code a ++ r = code b ++ s → a = b ∧ r = s

theorem PrefixFree.injective {code : α → List β} (h : PrefixFree code) :
    Function.Injective code := fun a b heq => (h a b [] [] (by rw [heq])).1

theorem PrefixFree.flatMap {code : α → List β} (h : PrefixFree code) {mark : β}
    (hm : ∀ a, ∃ first rest, code a = first :: rest ∧ first ≠ mark) (as bs : List α)
    (r s : List β) (heq : as.flatMap code ++ mark :: r = bs.flatMap code ++ mark :: s) :
    as = bs ∧ r = s := by
  induction as generalizing bs with
  | nil =>
    cases bs with
    | nil => exact ⟨rfl, tail_eq_of_cons_eq heq⟩
    | cons b bs =>
      obtain ⟨first, rest, hb, hne⟩ := hm b
      rw [flatMap_cons, hb] at heq
      exact absurd (head_eq_of_cons_eq heq).symm hne
  | cons a as ih =>
    cases bs with
    | nil =>
      obtain ⟨first, rest, ha, hne⟩ := hm a
      rw [flatMap_cons, ha] at heq
      exact absurd (head_eq_of_cons_eq heq) hne
    | cons b bs =>
      rw [flatMap_cons, flatMap_cons, append_assoc, append_assoc] at heq
      obtain ⟨rfl, ht⟩ := h a b _ _ heq
      obtain ⟨rfl, hrs⟩ := ih bs ht
      exact ⟨rfl, hrs⟩

/-- Texts, truth values and arrays of them, as a serializer writes them. -/
inductive Json where
  | null
  | bool (b : Bool)
  | string (s : String)
  | array (items : List Json)

namespace Json

/-- Quotation mark, backslash and control characters are escaped. -/
def escapeChar (c : Char) : List Char :=
  if c = '"' then ['\\', '"']
  else if c = '\\' then ['\\', '\\']
  else if c = '\n' then ['\\', 'n']
  else if c = '\r' then ['\\', 'r']
  else if c = '\t' then ['\\', 't']
  else if c.toNat = 8 then ['\\', 'b']
  else if c.toNat = 12 then ['\\', 'f']
  else if c.toNat < 32 then
    ['\\', 'u', '0', '0', Uuid.hexDigit (c.toNat / 16), Uuid.hexDigit (c.toNat % 16)]
  else [c]

def stringText (s : String) : List Char := '"' :: (s.toList.flatMap escapeChar ++ ['"'])

mutual

def text : Json → List Char
  | .null => ['n', 'u', 'l', 'l']
  | .bool true => ['t', 'r', 'u', 'e']
  | .bool false => ['f', 'a', 'l', 's', 'e']
  | .string s => stringText s
  | .array items => '[' :: arrayText true items

def arrayText : Bool → List Json → List Char
  | _, [] => [']']
  | true, item :: items => text item ++ arrayText false items
  | false, item :: items => ',' :: (text item ++ arrayText false items)

end

attribute [local simp] text arrayText

def toString (j : Json) : String := String.ofList j.text

def escaped : List Char := '"' :: '\\' :: (List.range 32).map Char.ofNat

theorem escapeChar_plain {c : Char} (h : c ∉ escaped) :
    escapeChar c = [c] ∧ c ≠ '\\' ∧ c ≠ '"' := by
  obtain ⟨hq, h⟩ := not_or.1 (mem_cons.not.1 h)
  obtain ⟨hs, h⟩ := not_or.1 (mem_cons.not.1 h)
  have hc : ¬c.toNat < 32 := by
    intro hlt
    exact h (mem_map.2 ⟨c.toNat, mem_range.2 hlt, Char.ofNat_toNat c⟩)
  refine ⟨?_, hs, hq⟩
  have hne : ∀ d : Char, d.toNat < 32 → c ≠ d := by
    rintro d hd rfl
    exact hc hd
  simp only [escapeChar, hq, hs, hne '\n' (by decide), hne '\r' (by decide),
    hne '\t' (by decide), hc, if_false]
  rw [if_neg (by omega), if_neg (by omega)]

theorem escapeChar_escaped : ∀ c ∈ escaped, (escapeChar c).head? = some '\\' := by
  have ha : (escaped.all fun c => (escapeChar c).head? == some '\\') = true := by decide +kernel
  intro c hc
  exact eq_of_beq (all_eq_true.1 ha c hc)

theorem escapeChar_distinct : ∀ c ∈ escaped, ∀ d ∈ escaped,
    escapeChar c <+: escapeChar d → c = d := by
  have ha : (escaped.all fun c => escaped.all fun d =>
      !(escapeChar c).isPrefixOf (escapeChar d) || c == d) = true := by decide +kernel
  intro c hc d hd hpr
  have hp := all_eq_true.1 (all_eq_true.1 ha c hc) d hd
  rw [ isPrefixOf_iff_prefix.2 hpr, Bool.not_true, Bool.false_or] at hp
  exact eq_of_beq hp

theorem prefixFree_escapeChar : PrefixFree escapeChar := by
  intro c d r s heq
  have hsa : c = d := by
    by_cases hc : c ∈ escaped
    · by_cases hd : d ∈ escaped
      · obtain h | h := prefix_or_prefix_of_prefix (⟨r, heq⟩ : escapeChar c <+: escapeChar d ++ s)
          ⟨s, rfl⟩
        · exact escapeChar_distinct c hc d hd h
        · exact (escapeChar_distinct d hd c hc h).symm
      · obtain ⟨hp, hs, -⟩ := escapeChar_plain hd
        have h := congrArg List.head? heq
        rw [hp, head?_append, escapeChar_escaped c hc] at h
        exact absurd (Option.some.inj h).symm hs
    · obtain ⟨hp, hs, -⟩ := escapeChar_plain hc
      have h := congrArg List.head? heq
      rw [hp, head?_append] at h
      by_cases hd : d ∈ escaped
      · rw [head?_append, escapeChar_escaped d hd] at h
        exact absurd (Option.some.inj h) hs
      rw [(escapeChar_plain hd).1] at h
      exact Option.some.inj h
  subst hsa
  exact ⟨rfl, append_cancel_left heq⟩

theorem escapeChar_ne_quote (c : Char) :
    ∃ first rest, escapeChar c = first :: rest ∧ first ≠ '"' := by
  by_cases hc : c ∈ escaped
  · have h := escapeChar_escaped c hc
    cases ht : escapeChar c with
    | nil =>
      rw [ht] at h
      cases h
    | cons first rest =>
      rw [ht] at h
      refine ⟨first, rest, rfl, ?_⟩
      rw [Option.some.inj h]
      decide
  · obtain ⟨hp, -, hq⟩ := escapeChar_plain hc
    exact ⟨c, [], hp, hq⟩

theorem prefixFree_stringText : PrefixFree stringText := by
  intro a b r s heq
  simp only [stringText, cons_append, append_assoc, List.cons.injEq, true_and] at heq
  obtain ⟨hl, hrs⟩ := prefixFree_escapeChar.flatMap escapeChar_ne_quote _ _ _ _ heq
  exact ⟨String.toList_injective hl, hrs⟩

theorem text_ne_end (b : Json) : ∃ first rest, b.text = first :: rest ∧ first ≠ ']' := by
  match b with
  | .null => exact ⟨'n', _, rfl, by decide⟩
  | .bool true => exact ⟨'t', _, rfl, by decide⟩
  | .bool false => exact ⟨'f', _, rfl, by decide⟩
  | .string s => exact ⟨'"', _, rfl, by decide⟩
  | .array _ => exact ⟨'[', _, rfl, by decide⟩

def Ends (a : Json) : Prop := ∀ b r s, a.text ++ r = text b ++ s → a = b ∧ r = s

def ItemsEnd (items : List Json) : Prop := ∀ first others r s,
  arrayText first items ++ r = arrayText first others ++ s → items = others ∧ r = s

theorem ends_null : Ends .null := by
  intro b r s heq
  match b with
  | .null => exact ⟨rfl, append_cancel_left heq⟩
  | .bool true | .bool false | .string _ | .array _ => simp [stringText] at heq

theorem ends_bool (value : Bool) : Ends (.bool value) := by
  intro b r s heq
  match value, b with
  | true, .bool true | false, .bool false => exact ⟨rfl, append_cancel_left heq⟩
  | true, .bool false | false, .bool true => simp at heq
  | true, .null | true, .string _ | true, .array _
  | false, .null | false, .string _ | false, .array _ => simp [stringText] at heq

theorem ends_string (value : String) : Ends (.string value) := by
  intro b r s heq
  match b with
  | .string other =>
    rw [text, text] at heq
    obtain ⟨rfl, hrs⟩ := prefixFree_stringText value other r s heq
    exact ⟨rfl, hrs⟩
  | .null | .bool true | .bool false | .array _ => simp [stringText] at heq

theorem ends_array (items : List Json) (h : ItemsEnd items) : Ends (.array items) := by
  intro b r s heq
  match b with
  | .array others =>
    rw [text, text] at heq
    obtain ⟨rfl, hrs⟩ := h true others r s (tail_eq_of_cons_eq heq)
    exact ⟨rfl, hrs⟩
  | .null | .bool true | .bool false | .string _ => simp [stringText] at heq

theorem itemsEnd_nil : ItemsEnd [] := by
  intro first others r s heq
  match first, others with
  | _, [] =>
    simp only [arrayText] at heq
    exact ⟨rfl, append_cancel_left heq⟩
  | true, other :: others =>
    obtain ⟨c, rest, hc, hne⟩ := text_ne_end other
    simp only [arrayText, hc] at heq
    exact absurd (head_eq_of_cons_eq heq).symm hne
  | false, other :: others => simp at heq

theorem itemsEnd_cons (item : Json) (items : List Json) (hi : Ends item)
    (hit : ItemsEnd items) : ItemsEnd (item :: items) := by
  intro first others r s heq
  have hco : ∀ other others, item.text ++ arrayText false items ++ r =
      text other ++ arrayText false others ++ s → item :: items = other :: others ∧ r = s := by
    intro other others heq
    rw [append_assoc, append_assoc] at heq
    obtain ⟨rfl, ht⟩ := hi other _ _ heq
    obtain ⟨rfl, hrs⟩ := hit false others r s ht
    exact ⟨rfl, hrs⟩
  match first, others with
  | true, [] =>
    obtain ⟨c, rest, hc, hne⟩ := text_ne_end item
    simp only [arrayText, hc] at heq
    exact absurd (head_eq_of_cons_eq heq) hne
  | false, [] => simp at heq
  | true, other :: others =>
    simp only [arrayText] at heq
    exact hco other others heq
  | false, other :: others =>
    simp only [arrayText] at heq
    exact hco other others (tail_eq_of_cons_eq heq)

theorem prefixFree_text : PrefixFree text := fun a =>
  @Json.rec Ends ItemsEnd ends_null ends_bool ends_string ends_array itemsEnd_nil itemsEnd_cons a

theorem toString_injective : Function.Injective toString := fun _ _ heq =>
  prefixFree_text.injective (String.ofList_injective heq)

end Json

end AqEngine.Lib
