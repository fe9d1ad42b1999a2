import Quire.Flavor.Escape

/-! Text as element content. The replacements run over the whole text one after the other, which
comes to the same as writing each character on its own. Main statement: `content_escape`, what is
written holds no markup, its ampersands start entities, and a reader of these finds the text again. -/
namespace Quire

namespace Text

theorem replaceChars_single (p : Char) (new cs : List Char) :
    replaceChars [p] new cs = cs.flatMap fun c => if c = p then new else [c] := by
  induction cs with
  | nil => rw [replaceChars] <;> simp
  | cons c cs ih =>
    rw [replaceChars]
    by_cases same : c = p
    · simp [same, ih, List.isPrefixOf]
    · simp [same, Ne.symm same, ih, List.isPrefixOf]

end Text

namespace Html

def entities : List (List Char × Char) :=
  [("&amp;".toList, '&'), ("&lt;".toList, '<'), ("&gt;".toList, '>'), ("&quot;".toList, '"')]

/-- A character is written as its entity or as itself. -/
theorem entity_cases (c : Char) :
    (entity c, c) ∈ entities ∨
      (entity c = [c] ∧ c ≠ '&' ∧ c ≠ '<' ∧ c ≠ '>' ∧ c ≠ '"') := by
  unfold entity
  split
  next same => subst same; exact .inl (by decide)
  split
  next same => subst same; exact .inl (by decide)
  split
  next same => subst same; exact .inl (by decide)
  split
  next same => subst same; exact .inl (by decide)
  next amp lt gt quote => exact .inr ⟨rfl, amp, lt, gt, quote⟩

theorem toList_escape (s : String) : (escape s).toList = s.toList.flatMap entity := by
  have one (old : Char) (new s : String) : (Text.replace (.ofList [old]) new s).toList =
      s.toList.flatMap fun c => if c = old then new.toList else [c] := by
    rw [Text.replace, String.toList_ofList, String.toList_ofList, Text.replaceChars_single]
  have steps : escape s = Text.replace (.ofList ['"']) "&quot;" (Text.replace (.ofList ['>']) "&gt;"
      (Text.replace (.ofList ['<']) "&lt;" (Text.replace (.ofList ['&']) "&amp;" s))) := rfl
  rw [steps, one, one, one, one, List.flatMap_assoc, List.flatMap_assoc, List.flatMap_assoc]
  refine congrArg (List.flatMap · s.toList) (funext fun c => ?_)
  obtain special | ⟨plain, amp, lt, gt, quote⟩ := entity_cases c
  · simp only [entities, List.mem_cons, List.not_mem_nil, or_false, Prod.mk.injEq] at special
    rcases special with ⟨-, rfl⟩ | ⟨-, rfl⟩ | ⟨-, rfl⟩ | ⟨-, rfl⟩ <;> rfl
  · simp only [plain, amp, lt, gt, quote, if_false, List.flatMap_cons, List.flatMap_nil,
      List.append_nil]

/-- A text with its entities resolved from left to right. What an entity stands for is not read
again, and an ampersand that starts none stays. -/
def unescapeChars : List Char → List Char
  | '&' :: 'a' :: 'm' :: 'p' :: ';' :: cs => '&' :: unescapeChars cs
  | '&' :: 'l' :: 't' :: ';' :: cs => '<' :: unescapeChars cs
  | '&' :: 'g' :: 't' :: ';' :: cs => '>' :: unescapeChars cs
  | '&' :: 'q' :: 'u' :: 'o' :: 't' :: ';' :: cs => '"' :: unescapeChars cs
  | c :: cs => c :: unescapeChars cs
  | [] => []

def unescape (s : String) : String := .ofList (unescapeChars s.toList)

structure IsContent (cs : List Char) : Prop where
  lt : '<' ∉ cs
  gt : '>' ∉ cs
  quote : '"' ∉ cs
  ampersand : ∀ front back, cs = front ++ '&' :: back → ∃ e ∈ entities, e.1 <+: '&' :: back

theorem isContent_of_mem_entities {e : List Char × Char} (member : e ∈ entities) :
    IsContent e.1 where
  lt := (by decide : ∀ e ∈ entities, '<' ∉ e.1) e member
  gt := (by decide : ∀ e ∈ entities, '>' ∉ e.1) e member
  quote := (by decide : ∀ e ∈ entities, '"' ∉ e.1) e member
  ampersand := by
    have once : ∀ e ∈ entities, '&' ∉ e.1.tail := by decide
    intro front back cut
    cases front with
    | nil => exact ⟨e, member, cut ▸ List.prefix_rfl⟩
    | cons c front =>
      have behind : e.1.tail = front ++ '&' :: back := by rw [cut, List.cons_append, List.tail_cons]
      exact absurd (by simp [behind]) (once e member)

namespace IsContent

theorem nil : IsContent [] := ⟨nofun, nofun, nofun, by simp⟩

theorem append {cs ds : List Char} (first : IsContent cs) (second : IsContent ds) :
    IsContent (cs ++ ds) where
  lt := by simp [first.lt, second.lt]
  gt := by simp [first.gt, second.gt]
  quote := by simp [first.quote, second.quote]
  ampersand := by
    intro front back cut
    obtain ⟨front', rfl, behind⟩ | ⟨inside, split, behind⟩ := List.append_eq_append_iff.mp cut
    · exact second.ampersand front' back behind
    · cases inside with
      | nil => exact second.ampersand [] back behind.symm
      | cons c inside =>
        obtain ⟨rfl, rfl⟩ := List.cons.inj behind
        obtain ⟨e, member, starts⟩ := first.ampersand front inside split
        exact ⟨e, member, starts.trans (List.prefix_append ('&' :: inside) ds)⟩

end IsContent

theorem isContent_entity (c : Char) : IsContent (entity c) := by
  obtain special | ⟨plain, amp, lt, gt, quote⟩ := entity_cases c
  · exact isContent_of_mem_entities special
  · rw [plain]
    refine ⟨by simpa using lt.symm, by simpa using gt.symm, by simpa using quote.symm, ?_⟩
    intro front back cut
    have inside : '&' ∈ [c] := by simp [cut]
    exact absurd (List.mem_singleton.mp inside).symm amp

theorem isContent_escape (s : String) : IsContent (escape s).toList := by
  rw [toList_escape]
  induction s.toList with
  | nil => exact .nil
  | cons c cs ih => exact (isContent_entity c).append ih

/-! Reading what was written. -/

theorem unescapeChars_of_mem_entities {e : List Char × Char} (member : e ∈ entities)
    (cs : List Char) : unescapeChars (e.1 ++ cs) = e.2 :: unescapeChars cs := by
  simp only [entities, List.mem_cons, List.not_mem_nil, or_false] at member
  rcases member with rfl | rfl | rfl | rfl <;> rfl

theorem unescapeChars_cons {c : Char} (other : c ≠ '&') (cs : List Char) :
    unescapeChars (c :: cs) = c :: unescapeChars cs := by
  rw [unescapeChars] <;> simp [other]

theorem unescapeChars_entity (c : Char) (cs : List Char) :
    unescapeChars (entity c ++ cs) = c :: unescapeChars cs := by
  obtain special | ⟨plain, amp, -⟩ := entity_cases c
  · exact unescapeChars_of_mem_entities special cs
  · rw [plain]
    exact unescapeChars_cons amp cs

theorem unescape_escape (s : String) : unescape (escape s) = s := by
  rw [unescape, toList_escape]
  have read (cs : List Char) : unescapeChars (cs.flatMap entity) = cs := by
    induction cs with
    | nil => rfl
    | cons c cs ih => rw [List.flatMap_cons, unescapeChars_entity, ih]
  rw [read, String.ofList_toList]

/-- Escaping writes each character on its own. What it writes is content, and its entities, resolved
from left to right, give the text back, so that no two texts are written alike. -/
theorem content_escape :
    (∀ s, escape s = .ofList (s.toList.flatMap entity) ∧ IsContent (escape s).toList ∧
      unescape (escape s) = s) ∧
    Function.Injective escape := by
  refine ⟨fun s => ⟨?_, isContent_escape s, unescape_escape s⟩, ?_⟩
  · rw [← toList_escape, String.ofList_toList]
  · exact Function.LeftInverse.injective unescape_escape

/-- A text that looks escaped is escaped like any other. -/
theorem content_escape_of_entity :
    let s := "&lt;\""
    (escape s).toList = [] ++ '&' :: "amp;lt;&quot;".toList ∧
      (∃ e ∈ entities, e.1 <+: '&' :: "amp;lt;&quot;".toList) ∧
      unescape (escape s) = s ∧ unescape s ≠ s := by
  intro s
  obtain ⟨written, content, read⟩ := content_escape.1 s
  have cut : (escape s).toList = [] ++ '&' :: "amp;lt;&quot;".toList := by
    rw [written]
    decide
  exact ⟨cut, content.ampersand _ _ cut, read, by decide⟩

end Html
end Quire
