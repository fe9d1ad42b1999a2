import Quire.Proofs.Bibliography.Lines
import Quire.Proofs.Options.Written
import Quire.Proofs.Text.Cut

/-! Works that are listed with a head, some lines and a blank line each, and read again. What a line
does to the entry that is being read depends on how it starts, so a work is read as a whole, and the
bibliography holds of each key the last work. Main statement: `parse_listed`. -/
namespace Quire.Bibliography

/-- A line as part of an entry: it is not blank, and starts neither an entry nor the end of the
bibliography. -/
@[mk_iff]
structure IsLine (line : String) : Prop where
  alone : '\n' ∉ line.toList
  solid : Text.allBlank line = false
  plain : ∀ command ∈ ["\\bibitem", "\\end\x7bthebibliography\x7d"],
    ¬ command.toList <+: (Text.trimStart line).toList

/-- With `depth` open braces in front of a text, none of its closing brackets stands outside of
braces. -/
def Enclosed (depth : Nat) (cs : List Char) : Prop :=
  ∀ front ∈ cs.inits, front.getLast? = some ']' → front.count '\x7d' < depth + front.count '\x7b'

instance (line : String) : Decidable (IsLine line) :=
  @decidable_of_iff' _ _ (isLine_iff line)
    (@instDecidableAnd _ _ _ (@instDecidableAnd _ _ _ (List.decidableBAll _ _)))

instance (depth : Nat) (cs : List Char) : Decidable (Enclosed depth cs) := List.decidableBAll _ _

/-- A work as it is listed: its short form between brackets, its key, and the lines behind. -/
structure Work where
  key : String
  short : String
  lines : List String

namespace Work

@[mk_iff]
structure Fits (work : Work) : Prop where
  trimmed : Text.trim work.key = work.key
  key : ∀ c ∈ work.key.toList, c ∉ ['\x7d', '\n']
  matched : Options.BracesMatch 0 work.short.toList
  enclosed : Enclosed 0 work.short.toList
  short : '\n' ∉ work.short.toList
  lines : ∀ line ∈ work.lines, IsLine line

instance (work : Work) : Decidable work.Fits :=
  @decidable_of_iff' _ _ (fits_iff work)
    (@instDecidableAnd _ _ _ (@instDecidableAnd _ _ (List.decidableBAll _ _) inferInstance))

def head (work : Work) : String := .join ["\\bibitem[", work.short, "]\x7b", work.key, "\x7d"]

def listed (work : Work) : String :=
  .join ((work.head :: work.lines ++ [""]).map (· ++ "\n"))

def entry (target : Target) (work : Work) : BibEntry where
  key := work.key
  short := cleanText target (shortLabel work.short)
  text := cleanText target (" ".intercalate (work.lines.map Text.trim))

end Work

def listed (works : List Work) : String := .join (works.map Work.listed)

section Head
variable {depth : Nat} {c : Char} {cs front : List Char}

theorem pos_of_enclosed_bracket (enclosed : Enclosed depth (']' :: cs)) : 0 < depth := by
  simpa using enclosed [']'] (by simp)

theorem enclosed_tail (enclosed : Enclosed depth (c :: cs)) (member : front ∈ cs.inits)
    (last : front.getLast? = some ']') :
    (c :: front).count '\x7d' < depth + (c :: front).count '\x7b' := by
  refine enclosed (c :: front) (by simpa using member) ?_
  rw [List.getLast?_cons, last]
  rfl

theorem enclosed_opening (enclosed : Enclosed depth ('\x7b' :: cs)) : Enclosed (depth + 1) cs := by
  intro front member last
  have inside := enclosed_tail enclosed member last
  rw [List.count_cons_self, List.count_cons_of_ne (by decide)] at inside
  omega

theorem enclosed_closing (enclosed : Enclosed (depth + 1) ('\x7d' :: cs)) : Enclosed depth cs := by
  intro front member last
  have inside := enclosed_tail enclosed member last
  rw [List.count_cons_self, List.count_cons_of_ne (by decide)] at inside
  omega

theorem enclosed_other (opening : c ≠ '\x7b') (closing : c ≠ '\x7d')
    (enclosed : Enclosed depth (c :: cs)) : Enclosed depth cs := by
  intro front member last
  have inside := enclosed_tail enclosed member last
  rwa [List.count_cons_of_ne opening, List.count_cons_of_ne closing] at inside

/-- A bracket behind a text is the first that no brace encloses. -/
theorem bracketed?_enclosed (matched : Options.BracesMatch depth cs)
    (enclosed : Enclosed depth cs) (rest : List Char) :
    bracketed? depth (cs ++ ']' :: rest) = some (cs, rest) := by
  induction cs generalizing depth with
  | nil =>
    obtain rfl : 0 = depth := by simpa [Options.BracesMatch] using matched
    simp [bracketed?]
  | cons c cs ih =>
    rw [List.cons_append, bracketed?]
    by_cases opening : c = '\x7b'
    · subst opening
      have later := ih (Options.bracesMatch_opening.mp matched) (enclosed_opening enclosed)
      simpa using later
    by_cases closing : c = '\x7d'
    · subst closing
      cases depth with
      | zero => exact absurd matched Options.not_bracesMatch_closing
      | succ depth =>
        have later := ih (Options.bracesMatch_closing.mp matched) (enclosed_closing enclosed)
        simpa using later
    · have inner : c = ']' → depth ≠ 0 := by
        rintro rfl
        exact (pos_of_enclosed_bracket enclosed).ne'
      have later := ih ((Options.bracesMatch_other opening closing).mp matched)
        (enclosed_other opening closing enclosed)
      simpa [opening, closing, later] using inner

/-- The line that starts the entry of a work says its short form and its key. -/
theorem ofLine?_head {work : Work} (fit : work.Fits) :
    Item.ofLine? work.head.toList = some ⟨some work.short.toList, work.key.toList, []⟩ := by
  have label : bracketed? 0 (work.short.toList ++ ']' :: '\x7b' :: (work.key.toList ++ ['\x7d'])) =
      some (work.short.toList, '\x7b' :: (work.key.toList ++ ['\x7d'])) :=
    bracketed?_enclosed fit.matched fit.enclosed _
  have key : Text.splitOnce? ['\x7d'] (work.key.toList ++ ['\x7d']) =
      some (work.key.toList, []) :=
    Text.splitOnce?_singleton (fun member => fit.key _ member (by simp)) []
  simp [Work.head, Item.ofLine?, List.isPrefixOf?, String.join, String.toList_append, label, key]

end Head

section Lines
variable {target : Target} {lines : List String} {bib : Bibliography}

theorem IsLine.goesOn {line : String} (ok : IsLine line) : GoesOn line :=
  ⟨ok.solid, ok.plain _ (by simp)⟩

theorem IsLine.closes {line : String} (ok : IsLine line) : closes line = false :=
  Bool.eq_false_iff.mpr fun starts => ok.plain _ (by simp) (List.isPrefixOf_iff_prefix.mp starts)

theorem readLines_head {work : Work} (fit : work.Fits) (draft : Option Draft) :
    readLines target bib draft (work.head :: lines) =
      readLines target (bib.close target draft) (some ⟨work.key, work.short, []⟩) lines := by
  have start : (Text.trimStart work.head).toList = work.head.toList := by
    rw [toList_trimStart]
    simp [Work.head, String.join, String.toList_append, Text.isBlank]
  have draft_eq : Draft.ofItem ⟨some work.short.toList, work.key.toList, []⟩ =
      ⟨work.key, work.short, []⟩ := by
    simp [Draft.ofItem, fit.trimmed]
  rw [readLines_item (by rw [start, ofLine?_head fit]), draft_eq]

/-- What `Text.lines` takes off the ends of lines is not missed. -/
theorem readLines_lines {front : List String} (ok : ∀ line ∈ front, IsLine line) (draft : Draft) :
    readLines target bib (some draft)
        (front.map (fun line => .ofList (Text.dropReturn line.toList)) ++ lines) =
      readLines target bib (some { draft with lines := draft.lines ++ front.map Text.trim })
        lines := by
  induction front generalizing draft with
  | nil => simp
  | cons line front ih =>
    obtain ⟨first, later⟩ := List.forall_mem_cons.mp ok
    obtain ⟨back, blank, whole⟩ := Text.dropReturn_append line.toList
    generalize cut_eq : String.ofList (Text.dropReturn line.toList) = cut
    obtain rfl : line = cut ++ .ofList back := by
      rw [← cut_eq, ← String.ofList_append, whole, String.ofList_toList]
    have blank' : Text.allBlank (.ofList back) = true := by simpa [Text.allBlank] using blank
    have solid : Text.allBlank cut = false := by
      simpa [Text.allBlank_append, blank'] using first.solid
    have same : Text.trim (cut ++ .ofList back) = Text.trim cut := by
      have led : Text.allBlank "" = true := rfl
      rw [← Text.trim_pad led blank' cut, String.empty_append]
    have added : texts [cut] = [Text.trim cut] := texts_plain (closes_of_append first.closes)
    rw [List.map_cons, List.cons_append, cut_eq, readLines_cons (first.goesOn.of_append solid),
      ih later, List.map_cons, same, added]
    simp

/-- The lines of a work are those that it is listed with. -/
theorem lines_listed {work : Work} (fit : work.Fits) (rest : String) :
    Text.lines (work.listed ++ rest) = work.head ::
      (work.lines.map (fun line => .ofList (Text.dropReturn line.toList)) ++
        "" :: Text.lines rest) := by
  have head : Text.dropReturn work.head.toList = work.head.toList := by
    have ended : work.head.toList =
        ("\\bibitem[" ++ work.short ++ "]\x7b" ++ work.key).toList ++ ['\x7d'] := by
      simp [Work.head, String.join, String.toList_append]
    rw [Text.dropReturn, ended, List.getLast?_concat, if_neg (by decide)]
  have alone : ∀ line ∈ work.head :: work.lines ++ [""], '\n' ∉ line.toList := by
    have key : '\n' ∉ work.key.toList := fun member => fit.key _ member (by simp)
    have lines : ∀ line ∈ work.lines, '\n' ∉ line.toList := fun line member =>
      (fit.lines line member).alone
    simpa [or_imp, forall_and, Work.head, String.join, String.toList_append, fit.short, key]
      using lines
  rw [Work.listed, Text.lines_append alone, List.cons_append, List.map_cons, List.map_append, head,
    String.ofList_toList, List.cons_append, List.append_assoc]
  rfl

/-- A work is read up to the line behind it, and is then in the bibliography. -/
theorem readLines_listed {work : Work} (fit : work.Fits) (rest : String) :
    readLines target bib none (Text.lines (work.listed ++ rest)) =
      readLines target (bib.insert (work.entry target)) none (Text.lines rest) := by
  rw [lines_listed fit, readLines_head fit, readLines_lines fit.lines, readLines_blank (by decide)]
  rfl

/-- The works are added one after the other. -/
theorem parse_eq_foldl {works : List Work} (fit : ∀ work ∈ works, work.Fits) :
    parse target (listed works) =
      .ok (works.foldl (fun bib work => bib.insert (work.entry target)) .empty) := by
  suffices ∀ bib, readLines target bib none (Text.lines (listed works)) =
      .ok (works.foldl (fun bib work => bib.insert (work.entry target)) bib) from this .empty
  induction works with
  | nil => exact fun bib => rfl
  | cons work works ih =>
    intro bib
    obtain ⟨first, fit⟩ := List.forall_mem_cons.mp fit
    rw [listed, List.map_cons, String.join_cons, readLines_listed first, List.foldl_cons]
    exact ih fit _

end Lines

section Insert
variable {bib : Bibliography} {entry : BibEntry} {key : String}

theorem get?_insert : (bib.insert entry).get? key =
    if entry.key == key then some entry else bib.get? key := by
  rw [get?, insert, List.find?_cons]
  split
  next same => rw [if_pos same]
  next other =>
    rw [if_neg (by simp [other]), List.find?_filter, get?]
    congr 1
    funext old
    by_cases same : old.key = entry.key
    · simp [same, other]
    · simp [same, beq_eq_decide]

theorem nodup_insert (distinct : (bib.entries.map (·.key)).Nodup) :
    ((bib.insert entry).entries.map (·.key)).Nodup := by
  rw [insert, List.map_cons, List.nodup_cons]
  constructor
  · simp
  · exact distinct.sublist (List.filter_sublist.map _)

theorem mem_keys_iff : key ∈ bib.entries.map (·.key) ↔ (bib.get? key).isSome := by
  rw [get?, List.find?_isSome, List.mem_map]
  simp only [beq_iff_eq]

end Insert

section Foldl
variable {target : Target} {works : List Work}

theorem nodup_foldl : ((works.foldl (fun bib work => bib.insert (work.entry target))
    empty).entries.map (·.key)).Nodup := by
  induction works using List.reverseRecOn with
  | nil => exact List.nodup_nil
  | append_singleton works work ih =>
    rw [List.foldl_concat]
    exact nodup_insert ih

/-- A bibliography holds of each key the work that was added last. -/
theorem get?_foldl {key : String} :
    (works.foldl (fun bib work => bib.insert (work.entry target)) empty).get? key =
      (works.reverse.find? (·.key == key)).map (·.entry target) := by
  induction works using List.reverseRecOn with
  | nil => rfl
  | append_singleton works work ih =>
    rw [List.foldl_concat, get?_insert, ih, List.reverse_concat, List.find?_cons]
    cases same : work.key == key with
    | true => exact if_pos same
    | false => exact if_neg (Bool.eq_false_iff.mp same)

end Foldl

/-- Works that are listed can be read. Each key among them is there once, with the last of its
works. -/
theorem parse_listed {works : List Work} (fit : ∀ work ∈ works, work.Fits) (target : Target) :
    ∃ bib, parse target (listed works) = .ok bib ∧ (bib.entries.map (·.key)).Nodup ∧
      (∀ key, key ∈ bib.entries.map (·.key) ↔ key ∈ works.map (·.key)) ∧
      ∀ key, bib.get? key = (works.reverse.find? (·.key == key)).map (·.entry target) := by
  refine ⟨_, parse_eq_foldl fit, nodup_foldl, fun key => ?_, fun key => get?_foldl⟩
  rw [mem_keys_iff, get?_foldl, Option.isSome_map, List.find?_isSome]
  simp

theorem parse_listed_of_three :
    let works : List Work := [
      ⟨"knuth", "Knuth\x7b[2]\x7d(1984)Knuth", [" The \\TeX book."]⟩,
      ⟨"empty", "", []⟩,
      ⟨"knuth", "Knuth(1986)", ["\\textit\x7bThe TeXbook\x7d,", "second \\end of \\bib [1]."]⟩]
    (∀ work ∈ works, work.Fits) ∧ ∃ bib, parse .html (listed works) = .ok bib ∧
      (bib.entries.map (·.key)).Nodup ∧
      (∀ key, key ∈ bib.entries.map (·.key) ↔ key ∈ works.map (·.key)) ∧
      ∀ key, bib.get? key = (works.reverse.find? (·.key == key)).map (·.entry .html) := by
  intro works
  have fit : ∀ work ∈ works, work.Fits := by
    decide +kernel
  exact ⟨fit, parse_listed fit .html⟩

end Quire.Bibliography
