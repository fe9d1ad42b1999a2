import Quire.Proofs.Flavor.Escape
import Quire.Proofs.Text.Returns

/-! Two texts that differ at their line ends. What a page is made of keeps to this when it is put
together, and the tags of the page stay the same. -/
namespace Quire

namespace Text

/-- The second text is the first with a carriage return in front of some line feeds. -/
inductive Feeds : List Char → List Char → Prop
  | nil : Feeds [] []
  | same (c : Char) {cs ds : List Char} (behind : Feeds cs ds) : Feeds (c :: cs) (c :: ds)
  | feed {cs ds : List Char} (behind : Feeds cs ds) : Feeds ('\n' :: cs) ('\r' :: '\n' :: ds)

/-- The second text is the first with carriage returns in front of line feeds, and with more white
space behind tags and in front of them. -/
inductive Relined : List Char → List Char → Prop
  | nil : Relined [] []
  | same (c : Char) {cs ds : List Char} (behind : Relined cs ds) : Relined (c :: cs) (c :: ds)
  | feed {cs ds : List Char} (behind : Relined cs ds) : Relined ('\n' :: cs) ('\r' :: '\n' :: ds)
  | after {cs ds white : List Char} (blank : ∀ c ∈ white, isBlank c = true)
      (behind : Relined cs ds) : Relined ('>' :: cs) ('>' :: (white ++ ds))
  | before {cs ds white : List Char} (blank : ∀ c ∈ white, isBlank c = true)
      (behind : Relined ('<' :: cs) ds) : Relined ('<' :: cs) (white ++ ds)

variable {cs ds cs' ds' : List Char} {c : Char}

theorem dropEndWhile_append (p : Char → Bool) (cs ds : List Char) :
    dropEndWhile p (cs ++ ds) =
      if dropEndWhile p ds = [] then dropEndWhile p cs else cs ++ dropEndWhile p ds := by
  rw [dropEndWhile, dropEndWhile, dropEndWhile, List.reverse_append, List.dropWhile_append]
  by_cases gone : ds.reverse.dropWhile p = [] <;> simp [gone]

theorem dropEndWhile_cons (p : Char → Bool) (c : Char) (cs : List Char) :
    dropEndWhile p (c :: cs) =
      if p c = true ∧ dropEndWhile p cs = [] then [] else c :: dropEndWhile p cs := by
  have whole := dropEndWhile_append p [c] cs
  rw [List.singleton_append] at whole
  rw [whole]
  by_cases gone : dropEndWhile p cs = []
  · by_cases passes : p c = true <;> simp [passes, dropEndWhile]
  · simp [gone]

namespace Feeds

theorem refl (cs : List Char) : Feeds cs cs := by
  induction cs with
  | nil => exact .nil
  | cons c cs ih => exact .same c ih

theorem returned (cs : List Char) : Feeds cs (Text.returned cs) := by
  induction cs with
  | nil => exact .nil
  | cons c cs ih =>
    by_cases feed : c = '\n'
    · subst feed
      exact .feed ih
    · rw [returned_cons feed]
      exact .same c ih

theorem append (first : Feeds cs ds) (second : Feeds cs' ds') : Feeds (cs ++ cs') (ds ++ ds') := by
  induction first with
  | nil => exact second
  | same c _ ih => exact .same c ih
  | feed _ ih => exact .feed ih

theorem nil_iff (feeds : Feeds cs ds) : cs = [] ↔ ds = [] := by
  cases feeds <;> simp

theorem eq_of_line (feeds : Feeds cs ds) (line : '\n' ∉ cs) : ds = cs := by
  induction feeds with
  | nil => rfl
  | same c _ ih => rw [ih (mt (List.mem_cons_of_mem c) line)]
  | feed => exact absurd List.mem_cons_self line

/-- Each character on its own, where a line feed stays one. -/
theorem flatMap (feeds : Feeds cs ds) {f : Char → List Char} (feed : f '\n' = ['\n'])
    (return_ : f '\r' = ['\r']) : Feeds (cs.flatMap f) (ds.flatMap f) := by
  induction feeds with
  | nil => exact .nil
  | same c _ ih => exact (refl (f c)).append ih
  | feed _ ih =>
    rw [List.flatMap_cons, List.flatMap_cons, List.flatMap_cons, feed, return_]
    exact .feed ih

theorem escape {s t : String} (feeds : Feeds s.toList t.toList) :
    Feeds (Html.escape s).toList (Html.escape t).toList := by
  rw [Html.toList_escape, Html.toList_escape]
  exact feeds.flatMap rfl rfl

section Trims

variable {p : Char → Bool}

/-- Without the line feeds at their fronts, one of the texts may start with more line ends. -/
theorem dropWhile (feeds : Feeds cs ds) (feed_only : ∀ c, p c = true ↔ c = '\n') :
    ∃ white kept, ds.dropWhile p = white ++ kept ∧ (∀ c ∈ white, isBlank c = true) ∧
      Feeds (cs.dropWhile p) kept := by
  induction feeds with
  | nil => exact ⟨[], [], rfl, by simp, .nil⟩
  | @same c cs ds behind ih =>
    by_cases feed : p c = true
    · rw [List.dropWhile_cons_of_pos feed, List.dropWhile_cons_of_pos feed]
      exact ih
    · rw [List.dropWhile_cons_of_neg feed, List.dropWhile_cons_of_neg feed]
      exact ⟨[], c :: ds, rfl, by simp, .same c behind⟩
  | @feed cs ds _ ih =>
    obtain ⟨white, kept, dropped, blank, feeds⟩ := ih
    have stays : ¬ p '\r' = true := fun passes => absurd ((feed_only _).mp passes) (by decide)
    rw [List.dropWhile_cons_of_pos ((feed_only _).mpr rfl), List.dropWhile_cons_of_neg stays]
    refine ⟨'\r' :: '\n' :: ds.takeWhile p ++ white, kept, ?_, ?_, feeds⟩
    · rw [List.append_assoc, ← dropped, List.cons_append, List.cons_append,
        List.takeWhile_append_dropWhile]
    · intro c member
      simp only [List.cons_append, List.mem_cons, List.mem_append] at member
      rcases member with rfl | rfl | member | member
      · rfl
      · rfl
      · obtain rfl := (feed_only c).mp (List.mem_takeWhile_imp member)
        rfl
      · exact blank c member

/-- Without the line feeds at their ends, one of the texts may end with more line ends. -/
theorem dropEndWhile (feeds : Feeds cs ds) (feed_only : ∀ c, p c = true ↔ c = '\n') :
    ∃ kept white, Text.dropEndWhile p ds = kept ++ white ∧ (∀ c ∈ white, isBlank c = true) ∧
      Feeds (Text.dropEndWhile p cs) kept := by
  induction feeds with
  | nil => exact ⟨[], [], rfl, by simp, .nil⟩
  | @same c cs ds _ ih =>
    obtain ⟨kept, white, dropped, blank, feeds⟩ := ih
    rw [dropEndWhile_cons, dropEndWhile_cons p c cs, dropped]
    by_cases goes : p c = true ∧ Text.dropEndWhile p cs = []
    · obtain rfl := (feed_only c).mp goes.1
      obtain rfl := feeds.nil_iff.mp goes.2
      rw [if_pos goes]
      split
      · exact ⟨[], [], rfl, by simp, .nil⟩
      · exact ⟨[], '\n' :: white, rfl, List.forall_mem_cons.mpr ⟨rfl, blank⟩, .nil⟩
    · have goes' : ¬ (p c = true ∧ kept ++ white = []) := fun ⟨passes, gone⟩ =>
        goes ⟨passes, feeds.nil_iff.mpr (List.append_eq_nil_iff.mp gone).1⟩
      rw [if_neg goes, if_neg goes']
      exact ⟨c :: kept, white, rfl, blank, .same c feeds⟩
  | @feed cs ds _ ih =>
    obtain ⟨kept, white, dropped, blank, feeds⟩ := ih
    have passes : p '\n' = true := (feed_only _).mpr rfl
    have stays : ¬ p '\r' = true := fun passes => absurd ((feed_only _).mp passes) (by decide)
    rw [dropEndWhile_cons p '\r', dropEndWhile_cons p '\n' ds, dropped,
      if_neg fun both => stays both.1]
    by_cases gone : Text.dropEndWhile p cs = []
    · obtain rfl := feeds.nil_iff.mp gone
      rw [dropEndWhile_cons p '\n' cs, if_pos (And.intro passes gone)]
      split
      · exact ⟨[], ['\r'], rfl, List.forall_mem_singleton.mpr rfl, .nil⟩
      · refine ⟨[], '\r' :: '\n' :: white, rfl, ?_, .nil⟩
        exact List.forall_mem_cons.mpr ⟨rfl, List.forall_mem_cons.mpr ⟨rfl, blank⟩⟩
    · have gone' : kept ++ white ≠ [] := fun gone' =>
        gone (feeds.nil_iff.mpr (List.append_eq_nil_iff.mp gone').1)
      rw [if_neg fun both => gone' both.2, dropEndWhile_cons p '\n' cs, if_neg fun both => gone both.2]
      exact ⟨'\r' :: '\n' :: kept, white, rfl, blank, .feed feeds⟩

end Trims

theorem relined (feeds : Feeds cs ds) : Relined cs ds := by
  induction feeds with
  | nil => exact .nil
  | same c _ ih => exact .same c ih
  | feed _ ih => exact .feed ih

end Feeds

namespace Relined

theorem refl (cs : List Char) : Relined cs cs := (Feeds.refl cs).relined

theorem append (first : Relined cs ds) (second : Relined cs' ds') :
    Relined (cs ++ cs') (ds ++ ds') := by
  induction first with
  | nil => exact second
  | same c _ ih => exact .same c ih
  | feed _ ih => exact .feed ih
  | after blank _ ih =>
    rw [List.cons_append, List.cons_append, List.append_assoc]
    exact .after blank ih
  | before blank _ ih =>
    rw [List.append_assoc]
    exact .before blank ih

theorem nil_iff (relined : Relined cs ds) : cs = [] ↔ ds = [] := by
  induction relined with
  | nil | same | feed | after => simp
  | before _ _ ih => simpa using fun _ => by simpa using ih

theorem all_blank (relined : Relined cs ds) : cs.all isBlank = ds.all isBlank := by
  induction relined with
  | nil => rfl
  | same c _ ih => simp only [List.all_cons, ih]
  | feed _ ih =>
    simp only [List.all_cons, ih]
    rfl
  | after => rfl
  | before blank _ ih => rw [List.all_append, List.all_eq_true.mpr blank, Bool.true_and, ih]

theorem trimStart (relined : Relined cs ds) :
    Relined (cs.dropWhile isBlank) (ds.dropWhile isBlank) := by
  induction relined with
  | nil => exact .nil
  | @same c cs ds behind ih =>
    rw [List.dropWhile_cons, List.dropWhile_cons]
    split
    · exact ih
    · exact .same c behind
  | feed _ ih => exact ih
  | after blank behind => exact .after blank behind
  | before blank behind ih =>
    rw [List.dropWhile_append_of_pos blank]
    exact ih

theorem trimEnd (relined : Relined cs ds) :
    Relined (dropEndWhile isBlank cs) (dropEndWhile isBlank ds) := by
  have padded {white ds : List Char} (blank : ∀ c ∈ white, isBlank c = true) :
      dropEndWhile isBlank (white ++ ds) =
        if dropEndWhile isBlank ds = [] then [] else white ++ dropEndWhile isBlank ds := by
    have gone : dropEndWhile isBlank white = [] := List.rdropWhile_eq_nil_iff.mpr blank
    rw [dropEndWhile_append, gone]
  induction relined with
  | nil => exact .nil
  | same c _ ih =>
    rw [dropEndWhile_cons, dropEndWhile_cons]
    simp only [ih.nil_iff]
    split
    · exact .nil
    · exact .same c ih
  | @feed cs ds _ ih =>
    have solid : ¬ ('\n' :: dropEndWhile isBlank ds = []) := List.cons_ne_nil _ _
    rw [dropEndWhile_cons isBlank '\n' cs, dropEndWhile_cons isBlank '\r',
      dropEndWhile_cons isBlank '\n' ds]
    simp only [ih.nil_iff]
    split
    next gone =>
      rw [if_pos ⟨rfl, rfl⟩]
      exact .nil
    next =>
      rw [if_neg fun both => solid both.2]
      exact .feed ih
  | after blank _ ih =>
    have solid : ¬ isBlank '>' = true := by decide
    rw [dropEndWhile_cons, dropEndWhile_cons, if_neg fun both => solid both.1,
      if_neg fun both => solid both.1, padded blank]
    split
    next gone =>
      rw [ih.nil_iff.mpr gone]
      exact refl _
    next => exact .after blank ih
  | before blank _ ih =>
    have opens (cs : List Char) : dropEndWhile isBlank ('<' :: cs) = '<' :: dropEndWhile isBlank cs := by
      rw [dropEndWhile_cons, if_neg fun both => absurd both.1 (by decide)]
    rw [opens] at ih ⊢
    rw [padded blank, if_neg (mt ih.nil_iff.mpr (List.cons_ne_nil _ _))]
    exact .before blank ih

/-- A text in a tag, with more white space between the tag and the text. -/
theorem element {front back kept before_ after_ : List Char}
    (before_blank : ∀ c ∈ before_, isBlank c = true) (after_blank : ∀ c ∈ after_, isBlank c = true)
    (relined : Relined cs kept) :
    Relined (front ++ '>' :: (cs ++ '<' :: back))
      (front ++ '>' :: (before_ ++ (kept ++ (after_ ++ '<' :: back)))) :=
  (refl front).append (.after before_blank (relined.append (.before after_blank (refl _))))

end Relined
end Text

namespace Html

/-- The two tags of a paragraph. -/
inductive ParagraphTag
  | opening
  | closing
deriving DecidableEq, Repr

def paragraphTag? (cs : List Char) : Option ParagraphTag :=
  if "<p>".toList.isPrefixOf cs then some .opening
  else if "</p>".toList.isPrefixOf cs then some .closing
  else none

def tagsIn : List Char → List ParagraphTag
  | [] => []
  | c :: cs => (paragraphTag? (c :: cs)).toList ++ tagsIn cs

def paragraphTags (body : String) : List ParagraphTag := tagsIn body.toList

theorem tagsIn_cons {c : Char} (other : c ≠ '<') (cs : List Char) : tagsIn (c :: cs) = tagsIn cs := by
  have differs : ('<' == c) = false := by simpa using Ne.symm other
  simp [tagsIn, paragraphTag?, List.isPrefixOf, differs]

end Html

namespace Text

def Even (pattern : List Char) : Prop :=
  ∀ cs ds, Relined cs ds → pattern.isPrefixOf cs = pattern.isPrefixOf ds

variable {cs ds : List Char} {c : Char}

theorem Relined.head?_blank (relined : Relined ('<' :: cs) ds) :
    ∃ d ∈ ds.head?, d = '<' ∨ isBlank d = true := by
  generalize whole : '<' :: cs = cs' at relined
  induction relined generalizing cs with
  | nil => cases whole
  | same c => exact ⟨c, rfl, .inl (List.cons.inj whole).1.symm⟩
  | feed => cases whole
  | after => cases whole
  | @before cs ds white blank _ ih =>
    cases white with
    | nil => exact ih rfl
    | cons d white => exact ⟨d, rfl, .inr (blank d List.mem_cons_self)⟩

theorem even_cons {pattern : List Char} (solid : isBlank c = false) (closes : c ≠ '>')
    (opens : c ≠ '<') (even : Even pattern) : Even (c :: pattern) := by
  have differs {d : Char} (blank : isBlank d = true) : c ≠ d := by
    rintro rfl
    exact absurd (solid.symm.trans blank) (by decide)
  have starts {d : Char} {ds : List Char} (other : c ≠ d) :
      (c :: pattern).isPrefixOf (d :: ds) = false := by
    simp [List.isPrefixOf, beq_eq_false_iff_ne.mpr other]
  intro cs ds relined
  cases relined with
  | nil => rfl
  | same d behind => rw [List.isPrefixOf, List.isPrefixOf, even _ _ behind]
  | feed => rw [starts (differs rfl), starts (differs rfl)]
  | after => rw [starts closes, starts closes]
  | before blank behind =>
    obtain ⟨d, first, kind⟩ := (Relined.before blank behind).head?_blank
    obtain ⟨ds, whole⟩ := List.head?_eq_some_iff.mp first
    have other : c ≠ d := by
      rcases kind with rfl | blank
      · exact opens
      · exact differs blank
    rw [whole, starts opens, starts other]

theorem even_close : Even ['>'] := by
  intro cs ds relined
  cases relined with
  | nil | same | feed | after => simp [List.isPrefixOf]
  | before blank behind =>
    obtain ⟨d, first, kind⟩ := (Relined.before blank behind).head?_blank
    obtain ⟨ds, whole⟩ := List.head?_eq_some_iff.mp first
    have other : '>' ≠ d := by
      rcases kind with rfl | blank
      · decide
      · rintro rfl
        cases blank
    rw [whole]
    simp [List.isPrefixOf, other]

theorem Relined.tagsIn (relined : Relined cs ds) : Html.tagsIn cs = Html.tagsIn ds := by
  have start {cs ds : List Char} (behind : Relined cs ds) (c : Char) :
      Html.paragraphTag? (c :: cs) = Html.paragraphTag? (c :: ds) := by
    have opening : Even "p>".toList := even_cons rfl (by decide) (by decide) even_close
    have closing : Even "/p>".toList := even_cons rfl (by decide) (by decide) opening
    have first := opening cs ds behind
    have second := closing cs ds behind
    simp only [Html.paragraphTag?, show "<p>".toList = '<' :: "p>".toList from rfl,
      show "</p>".toList = '<' :: "/p>".toList from rfl, List.isPrefixOf, first, second]
  have padded {white ds : List Char} (blank : ∀ c ∈ white, isBlank c = true) :
      Html.tagsIn (white ++ ds) = Html.tagsIn ds := by
    induction white with
    | nil => rfl
    | cons c white ih =>
      obtain ⟨first, blank⟩ := List.forall_mem_cons.mp blank
      have other : c ≠ '<' := by
        rintro rfl
        cases first
      rw [List.cons_append, Html.tagsIn_cons other, ih blank]
  induction relined with
  | nil => rfl
  | same c behind ih => rw [Html.tagsIn, Html.tagsIn, start behind c, ih]
  | feed _ ih =>
    rw [Html.tagsIn_cons (by decide), Html.tagsIn_cons (by decide), Html.tagsIn_cons (by decide), ih]
  | after blank _ ih =>
    rw [Html.tagsIn_cons (by decide), Html.tagsIn_cons (by decide), padded blank, ih]
  | before blank _ ih => rw [padded blank, ih]

/-- Two texts that differ in carriage returns at line ends and in white space next to tags. -/
def SameLines (s t : String) : Prop := Relined s.toList t.toList

namespace SameLines

variable {s t s' t' : String}

theorem refl (s : String) : SameLines s s := Relined.refl _

theorem of_feeds (feeds : Feeds s.toList t.toList) : SameLines s t := feeds.relined

theorem withReturns (s : String) : SameLines s (Text.withReturns s) := by
  rw [SameLines, toList_withReturns]
  exact (Feeds.returned _).relined

theorem append (first : SameLines s t) (second : SameLines s' t') :
    SameLines (s ++ s') (t ++ t') := by
  rw [SameLines, String.toList_append, String.toList_append]
  exact Relined.append first second

theorem join {texts texts' : List String} (each : List.Forall₂ SameLines texts texts') :
    SameLines (.join texts) (.join texts') := by
  induction each with
  | nil => exact refl _
  | cons first _ ih =>
    rw [String.join_cons, String.join_cons]
    exact first.append ih

theorem allBlank_eq (same : SameLines s t) : allBlank s = allBlank t := Relined.all_blank same

theorem trimStart (same : SameLines s t) : SameLines (Text.trimStart s) (Text.trimStart t) := by
  rw [SameLines, Text.trimStart, Text.trimStart, dropFront, dropFront, String.toList_ofList,
    String.toList_ofList]
  exact Relined.trimStart same

theorem trimEnd (same : SameLines s t) : SameLines (Text.trimEnd s) (Text.trimEnd t) := by
  rw [SameLines, toList_trimEnd, toList_trimEnd]
  exact Relined.trimEnd same

theorem trim (same : SameLines s t) : SameLines (Text.trim s) (Text.trim t) := by
  rw [trim_eq, trim_eq]
  exact same.trimStart.trimEnd

/-- White space has no part in the tags of the paragraphs. -/
theorem paragraphTags_eq (same : SameLines s t) :
    Html.paragraphTags s = Html.paragraphTags t := Relined.tagsIn same

end SameLines
end Text
end Quire
