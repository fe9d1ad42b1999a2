import Quire.Proofs.Book.Pages
import Quire.Proofs.Walk.Anchor

/-! Links from chapter to chapter. A number belongs to the chapter whose number leads it. A number
that no chapter leads counts as an ordinal, and the chapter with this ordinal has a number of its
own. Main statement: references lead to the chapter of their number unless the number is taken for
the ordinal of another chapter, and only then. -/
namespace Quire

namespace LabelIndex

variable {index : LabelIndex} {number : String} {ordinal : Nat} {c d : Chapter}

/-- What leads a number is the number of a chapter, or no chapter has it for its ordinal. -/
def Leads (index : LabelIndex) (number : String) : Prop :=
  (∃ c ∈ index.chapters, c.number = lead number) ∨
    ∀ ordinal, Text.count? (lead number) = some ordinal → index.chapter? ordinal = none

/-- No two chapters have the same ordinal. -/
theorem Ascends.eq_of_ordinal (ascends : index.Ascends) (c_mem : c ∈ index.chapters)
    (d_mem : d ∈ index.chapters) (same : c.ordinal = d.ordinal) : c = d := by
  have distinct : (index.chapters.map (·.ordinal)).Nodup := ascends.imp Nat.ne_of_lt
  exact List.inj_on_of_nodup_map distinct c_mem d_mem same

theorem Ascends.chapter?_eq_some_iff (ascends : index.Ascends) :
    index.chapter? ordinal = some c ↔ c ∈ index.chapters ∧ c.ordinal = ordinal := by
  constructor
  · intro found
    exact ⟨List.mem_of_find?_eq_some found, by simpa using List.find?_some found⟩
  · rintro ⟨c_mem, rfl⟩
    cases found : index.chapter? c.ordinal with
    | none => simpa using List.find?_eq_none.mp found c c_mem
    | some d =>
      have ordinal : d.ordinal = c.ordinal := by simpa using List.find?_some found
      rw [ascends.eq_of_ordinal (List.mem_of_find?_eq_some found) c_mem ordinal]

/-- The ordinal of a number is that of a chapter whose number leads it, or the number stands for
itself and leads no chapter. -/
theorem chapterOf?_cases (found : index.chapterOf? number = some ordinal) :
    (∃ c ∈ index.chapters, c.number = lead number ∧ c.ordinal = ordinal) ∨
      (∀ c ∈ index.chapters, c.number ≠ lead number) ∧
        Text.count? (lead number) = some ordinal := by
  unfold chapterOf? at found
  split at found
  next c first =>
    cases found
    exact .inl ⟨c, List.mem_of_find?_eq_some first, by simpa using List.find?_some first, rfl⟩
  next none_ =>
    exact .inr ⟨fun c c_mem => by simpa using List.find?_eq_none.mp none_ c c_mem, found⟩

/-- The chapter of a number has the number that leads it, exactly if no other chapter has that
number for its ordinal. -/
theorem chapterOf?_leads_iff (ascends : index.Ascends) :
    (∀ ordinal c, index.chapterOf? number = some ordinal → index.chapter? ordinal = some c →
      c.number = lead number) ↔ index.Leads number := by
  constructor
  · intro named
    refine or_iff_not_imp_left.mpr fun none_ ordinal count => ?_
    have unnamed : index.chapters.find? (·.number == lead number) = none := by
      simpa using none_
    have found : index.chapterOf? number = some ordinal := by
      rw [chapterOf?, unnamed]
      exact count
    cases there : index.chapter? ordinal with
    | none => rfl
    | some c =>
      exact absurd ⟨c, List.mem_of_find?_eq_some there, named ordinal c found there⟩ none_
  · intro leads ordinal c found there
    obtain ⟨c_mem, rfl⟩ := ascends.chapter?_eq_some_iff.mp there
    rcases chapterOf?_cases found with ⟨d, d_mem, named, same⟩ | ⟨unnamed, count⟩
    · rw [← named, ascends.eq_of_ordinal d_mem c_mem same]
    · rcases leads with ⟨d, d_mem, named⟩ | free
      · exact absurd named (unnamed d d_mem)
      · rw [free _ count] at there
        cases there

end LabelIndex

namespace Labels

theorem ascends_ingestAll (disk : Disk) (source : Source) (texts : List (String × String)) :
    (ingestAll disk source texts).index.Ascends := by
  rw [LabelIndex.Ascends, index_ingestAll, ordinals_addRecords]
  exact List.pairwise_lt_range'

end Labels

namespace Reference

/-- What stands before the first number sign of an address. -/
def page (href : String) : String := .ofList (href.toList.takeWhile (· != '#'))

theorem page_append {front : String} (noSign : '#' ∉ front.toList) (anchor : String) :
    page (front ++ "#" ++ anchor) = front := by
  have inside : ∀ c ∈ front.toList, (c != '#') = true := by
    intro c member
    simpa using fun same : c = '#' => noSign (same ▸ member)
  rw [page, String.toList_append, String.toList_append, List.append_assoc,
    List.takeWhile_append_of_pos inside]
  simp

/-- A link that names the page of a chapter has it from its number. -/
theorem chapterOf?_of_page {index : LabelIndex} {label : String} {current ordinal : Nat}
    {target : Target} {resolved : Resolved}
    (found : resolve? index label current target.extension = some resolved)
    (names : page resolved.href = chapterFile ordinal target.extension) :
    index.chapterOf? resolved.number = some ordinal := by
  obtain ⟨number, -, rfl⟩ := Option.map_eq_some_iff.mp found
  have some_ : chapterFile ordinal target.extension ≠ "" := by
    simp [chapterFile, ← String.toList_inj]
  dsimp only at names ⊢
  cases chapter : index.chapterOf? number with
  | none =>
    simp only [chapter] at names
    rw [page_append (by simp)] at names
    exact absurd names.symm some_
  | some other =>
    simp only [chapter] at names
    split at names
    next =>
      rw [page_append (by simp)] at names
      exact absurd names.symm some_
    next =>
      rw [page_append (numberSign_not_mem_chapterFile other target)] at names
      rw [chapterFile_inj names]

end Reference

namespace Labels

open LabelIndex (lead)

/-- In an index made from texts, the ordinal of a number is that of a chapter with the number that
leads it, exactly if the number leads a chapter or is no other chapter's ordinal. Where this is so,
no reference with the number names the page of a chapter with another number. -/
theorem page_of_leads (disk : Disk) (source : Source) (texts : List (String × String)) :
    let index := (ingestAll disk source texts).index
    (∀ number, (∀ ordinal c, index.chapterOf? number = some ordinal →
        index.chapter? ordinal = some c → c.number = lead number) ↔ index.Leads number) ∧
      ∀ label current (target : Target) resolved,
        Reference.resolve? index label current target.extension = some resolved →
        index.Leads resolved.number → ∀ c ∈ index.chapters,
          Reference.page resolved.href = Reference.chapterFile c.ordinal target.extension →
            c.number = lead resolved.number := by
  intro index
  have ascends : index.Ascends := ascends_ingestAll disk source texts
  refine ⟨fun number => LabelIndex.chapterOf?_leads_iff ascends, ?_⟩
  intro label current target resolved found leads c c_mem names
  have there : index.chapter? c.ordinal = some c := ascends.chapter?_eq_some_iff.mpr ⟨c_mem, rfl⟩
  have ordinal : index.chapterOf? resolved.number = some c.ordinal :=
    Reference.chapterOf?_of_page found names
  exact (LabelIndex.chapterOf?_leads_iff ascends).mpr leads _ c ordinal there

/-- The records of a book that starts with its second chapter. A section of the first one has a
label of its own. -/
def secondChapter : String :=
  "\\newlabel\x7bsec:a\x7d\x7b\x7b1.1\x7d\x7b3\x7d\x7bA\x7d\x7bsection.1.1\x7d\x7b\x7d\x7d
\\newlabel\x7bchap:b\x7d\x7b\x7b2\x7d\x7b5\x7d\x7bB\x7d\x7bchapter.2\x7d\x7b\x7d\x7d
\\newlabel\x7bsec:c\x7d\x7b\x7b2.1\x7d\x7b6\x7d\x7bC\x7d\x7bsection.2.1\x7d\x7b\x7d\x7d"

/-- The only chapter of these records is the first one, and its number is another. -/
theorem index_secondChapter :
    ∃ c, (ingestAll .empty ⟨"", .html, []⟩ [("main.aux", secondChapter)]).index =
        ⟨[("sec:c", "2.1"), ("chap:b", "2"), ("sec:a", "1.1")], [c]⟩ ∧
      c.ordinal = 1 ∧ c.number = "2" := by
  have known : let index :=
        (ingestAll .empty ⟨"", .html, []⟩ [("main.aux", secondChapter)]).index
      (index.numbers, index.chapters.map fun c => (c.ordinal, c.number)) =
        ([("sec:c", "2.1"), ("chap:b", "2"), ("sec:a", "1.1")], [(1, "2")]) := by decide +kernel
  generalize (ingestAll .empty ⟨"", .html, []⟩ [("main.aux", secondChapter)]).index = index
    at known ⊢
  obtain ⟨numbers, chapters⟩ := index
  obtain ⟨rfl, named⟩ := Prod.mk.inj known
  obtain ⟨c, rfl, pair⟩ := List.map_eq_singleton_iff.mp named
  obtain ⟨ordinal, number⟩ := Prod.mk.inj pair
  exact ⟨c, rfl, ordinal, number⟩

/-- A chapter that is the first and has another number. -/
theorem page_of_leads_of_second :
    let index := (ingestAll .empty ⟨"", .html, []⟩ [("main.aux", secondChapter)]).index
    let resolved : Reference.Resolved := ⟨"2.1", "chapter01.html#sec-2_1"⟩
    index.Leads "2.1" ∧ Reference.resolve? index "sec:c" 3 "html" = some resolved ∧
      (∀ ordinal c, index.chapterOf? "2.1" = some ordinal → index.chapter? ordinal = some c →
        c.number = "2") ∧
      ∀ c ∈ index.chapters, Reference.page resolved.href = Reference.chapterFile c.ordinal "html" →
        c.number = "2" := by
  obtain ⟨c, known, ordinal, number⟩ := index_secondChapter
  have linked := page_of_leads .empty ⟨"", .html, []⟩ [("main.aux", secondChapter)]
  rw [known] at linked ⊢
  obtain ⟨named, pages⟩ := linked
  intro index resolved
  have led : lead "2.1" = "2" := by decide +kernel
  have leads : index.Leads "2.1" := .inl ⟨c, List.mem_singleton_self c, number.trans led.symm⟩
  have found : Reference.resolve? index "sec:c" 3 "html" = some resolved := by
    have page : Reference.chapterFile 1 "html" ++ "#" ++ Reference.anchorFor "sec:c" "2.1" =
        "chapter01.html#sec-2_1" := by decide +kernel
    simp [Reference.resolve?, LabelIndex.get?, LabelIndex.chapterOf?, index, led, number, ordinal,
      resolved, page]
  exact ⟨leads, found, fun ordinal c at_ there => led ▸ (named "2.1").mpr leads ordinal c at_ there,
    fun c c_mem names => led ▸ pages "sec:c" 3 .html resolved found leads c c_mem names⟩

/-- A number that leads no chapter is taken for an ordinal, and the link names the page of a chapter
with another number. -/
theorem page_of_other_chapter :
    let index := (ingestAll .empty ⟨"", .html, []⟩ [("main.aux", secondChapter)]).index
    Reference.resolve? index "sec:a" 3 "html" = some ⟨"1.1", "chapter01.html#sec-1_1"⟩ ∧
      index.chapterOf? "1.1" = some 1 ∧ (index.chapter? 1).map (·.number) = some "2" ∧
      ¬ ∀ ordinal c, index.chapterOf? "1.1" = some ordinal → index.chapter? ordinal = some c →
        c.number = lead "1.1" := by
  obtain ⟨c, known, ordinal, number⟩ := index_secondChapter
  rw [known]
  intro index
  have led : lead "1.1" = "1" := by decide +kernel
  have count : Text.count? "1" = some 1 := by decide +kernel
  have other : index.chapterOf? "1.1" = some 1 := by
    simp [index, LabelIndex.chapterOf?, led, number, count]
  have there : index.chapter? 1 = some c := by simp [index, LabelIndex.chapter?, ordinal]
  refine ⟨?_, other, by rw [there, Option.map_some, number], fun named => ?_⟩
  · have page : Reference.chapterFile 1 "html" ++ "#" ++ Reference.anchorFor "sec:a" "1.1" =
        "chapter01.html#sec-1_1" := by decide +kernel
    have numbered : index.get? "sec:a" = some "1.1" := by
      simp [index, LabelIndex.get?, List.lookup_cons]
    simp [Reference.resolve?, numbered, other, page]
  · have same : c.number = lead "1.1" := named 1 c other there
    rw [number, led] at same
    exact absurd same (by decide)

end Labels

end Quire
