import Quire.Proofs.Options.Split
import Quire.Proofs.Text.Trim

/-! Comments among options. Options are read from the source between their brackets, where a percent
sign has no meaning: what a comment behind a comma holds, and the end of its line, stand in front of
the option behind it. Main statement: `parse_comment`. -/
namespace Quire.Options

/-- What a comment holds, up to the end of its line, without commas. -/
def IsLine (text : String) : Prop := ∀ c ∈ text.toList, c ∉ ['\n', ',']

instance (text : String) : Decidable (IsLine text) := List.decidableBAll _ _

def comment (text : String) : List Char := '%' :: (text.toList ++ ['\n'])

section Comment
variable {text : String} {cs : List Char} {parts : List Char × List (List Char)}

theorem IsLine.comma (line : IsLine text) : ',' ∉ comment text := by
  simp only [comment, List.mem_cons, List.mem_append, List.not_mem_nil, or_false]
  rintro (percent | inside | feed)
  · cases percent
  · exact line ',' inside (by simp)
  · cases feed

/-- The line feed takes a backslash at the end of the text. -/
theorem settled_comment (text : String) : (reading (comment text)).escaped = false :=
  Reading.settled_concat (by decide) ('%' :: text.toList) _

/-- A comment in front of a part belongs to the part. -/
theorem cut_comment {sep : Char} (pairs : Reading.Pairs ⟨0, false⟩ (comment text))
    (absent : sep ∉ comment text) (cut : Cut sep 0 cs parts) :
    Cut sep 0 (comment text ++ cs) (prepend (comment text) parts) :=
  (cut_alone pairs absent).through (.inr ⟨rfl, rfl⟩) (settled_comment text) cut

/-- What stands behind a comment closes nothing that the comment opens. -/
theorem pairs_comment (all : Reading.Pairs ⟨0, false⟩ (comment text ++ cs))
    (behind : Reading.Pairs ⟨0, false⟩ cs) : Reading.Pairs ⟨0, false⟩ (comment text) := by
  refine ⟨fun front inside => all.nonneg front (inside.trans (List.prefix_append _ _)), ?_⟩
  have open_ : reading (comment text) = ⟨0 + (reading (comment text)).depth, false⟩ := by
    rw [← settled_comment text, Int.zero_add]
  have whole := all.settled
  rw [List.foldl_append, ← reading.eq_1, open_, Reading.depth_shift, behind.settled,
    Int.zero_add] at whole
  exact whole

/-- The option of one part, if it is not blank. -/
def optionOf? (piece : String) : Option (String × String) :=
  if Text.allBlank piece then none else some (entry piece)

theorem entries_cons (piece : String) (found : List String) :
    entries (piece :: found) = (optionOf? piece).toList ++ entries found := by
  by_cases blank : Text.allBlank piece <;> simp [entries, optionOf?, blank]

theorem entry_blank {piece : String} (blank : Text.allBlank piece = true) :
    entry piece = ("", "") := by
  have absent {c : Char} (solid : Text.isBlank c = false) : c ∉ piece.toList := by
    intro inside
    rw [List.all_eq_true.mp blank c inside] at solid
    cases solid
  have flat : ∀ c ∈ piece.toList, isOpening c = false ∧ isClosing c = false := by
    refine fun c inside => ⟨Bool.eq_false_iff.mpr fun opening => ?_,
      Bool.eq_false_iff.mpr fun closing => ?_⟩
    · simp only [isOpening, Bool.or_eq_true, beq_iff_eq] at opening
      rcases opening with rfl | rfl <;> exact absent (by decide) inside
    · simp only [isClosing, Bool.or_eq_true, beq_iff_eq] at closing
      rcases closing with rfl | rfl <;> exact absent (by decide) inside
  have cut : Cut '=' 0 piece.toList (piece.toList, []) :=
    cut_alone (pairs_flat flat) (absent (by decide))
  rw [entry_of_cut cut, List.drop_eq_nil_of_le (Nat.le_succ _), String.ofList_toList,
    Text.trim_of_allBlank blank]
  rfl

theorem optionOf?_getD (piece : String) : (optionOf? piece).getD ("", "") = entry piece := by
  unfold optionOf?
  split
  next blank => exact (entry_blank blank).symm
  next => rfl

/-- The name of an option behind a comment starts with the comment. -/
theorem head?_entry_comment (cut : Cut '=' 0 (comment text ++ cs) parts) :
    (entry (.ofList (comment text ++ cs))).1.toList.head? = some '%' := by
  obtain ⟨inner, -, rfl⟩ := Cut.of_ordinary (by decide) (by decide) cut
  rw [← String.toList_ofList (l := comment text ++ cs)] at cut
  have name : (entry (.ofList (comment text ++ cs))).1 =
      Text.trim (.ofList (prepend ['%'] inner).1) := by rw [entry_of_cut cut]
  have front : (prepend ['%'] inner).1.dropWhile Text.isBlank = [] ++ '%' :: inner.1 :=
    List.dropWhile_cons_of_neg (by decide)
  rw [name, Text.trim, String.toList_ofList, String.toList_ofList, front,
    Text.dropEndWhile_append_stop (by decide)]
  rfl

/-- Without an equals sign a comment only goes in front of the name. -/
theorem entry_comment (pairs : Reading.Pairs ⟨0, false⟩ (comment text))
    (unequal : '=' ∉ text.toList) (cut : Cut '=' 0 cs parts) :
    entry (.ofList (comment text ++ cs)) =
      (Text.trim (.ofList (comment text ++ parts.1)), (entry (.ofList cs)).2) := by
  have absent : '=' ∉ comment text := by simp [comment, unequal]
  have commented := cut_comment pairs absent cut
  rw [← String.toList_ofList (l := comment text ++ cs)] at commented
  rw [← String.toList_ofList (l := cs)] at cut
  have name : (prepend (comment text) parts).1 = comment text ++ parts.1 := rfl
  have same : (comment text ++ cs).drop ((comment text ++ parts.1).length + 1) =
      cs.drop (parts.1.length + 1) := by
    rw [List.length_append, Nat.add_assoc, List.drop_length_add_append]
  rw [entry_of_cut commented, entry_of_cut cut, String.toList_ofList, String.toList_ofList, name,
    same]

end Comment

section Around
variable {front back text : String} {parts more : List Char × List (List Char)} {options : Options}

theorem ordinary_comma : Ordinary ',' := by decide

/-- Options with a comment behind one of their commas. -/
def commented (front text back : String) : String := front ++ "," ++ .ofList (comment text) ++ back

theorem toList_commented (front text back : String) :
    (commented front text back).toList = front.toList ++ ',' :: (comment text ++ back.toList) := by
  simp [commented]

/-- Where nothing is open, the braces and brackets pair on both sides of a comma. -/
theorem pairs_comma {cs : List Char} (top : reading front.toList = ⟨0, false⟩)
    (pairs : Reading.Pairs ⟨0, false⟩ (front.toList ++ ',' :: cs)) :
    Reading.Pairs ⟨0, false⟩ front.toList ∧ Reading.Pairs ⟨0, false⟩ cs := by
  obtain ⟨first, second⟩ := pairs.append (congrArg Reading.depth top)
  have behind := (Reading.pairs_cons.mp second).2
  rw [← reading.eq_1, top, Reading.after_ordinary ordinary_comma] at behind
  exact ⟨first, behind⟩

/-- Where nothing is open, a comma splits a text into two texts of options. -/
theorem cuts_of_parse (parsed : parse (front ++ "," ++ back) = .ok options)
    (top : reading front.toList = ⟨0, false⟩) :
    ∃ parts more, Cut ',' 0 front.toList parts ∧ Cut ',' 0 back.toList more ∧
      options.pairs = entries (pieces parts) ++ entries (pieces more) := by
  obtain ⟨whole, cut, rfl⟩ := parse_eq_ok_iff.mp parsed
  have chars : (front ++ "," ++ back).toList = front.toList ++ ',' :: back.toList := by simp
  rw [chars] at cut
  obtain ⟨first, second⟩ := pairs_comma top cut.pairs
  obtain ⟨parts, cutFront⟩ : ∃ parts, Cut ',' 0 front.toList parts := exists_cut_iff.mpr first
  obtain ⟨more, cutBack⟩ : ∃ parts, Cut ',' 0 back.toList parts := exists_cut_iff.mpr second
  obtain rfl := cut.unique (cutFront.append ordinary_comma (congrArg Reading.escaped top) cutBack)
  refine ⟨parts, more, cutFront, cutBack, ?_⟩
  rw [← entries_append, pieces_append]

theorem parse_commented (cutFront : Cut ',' 0 front.toList parts)
    (top : reading front.toList = ⟨0, false⟩) (cutBack : Cut ',' 0 back.toList more)
    (line : IsLine text) (pairs : Reading.Pairs ⟨0, false⟩ (comment text)) :
    parse (commented front text back) = .ok ⟨entries (pieces parts) ++
      entry (.ofList (comment text ++ more.1)) :: entries (more.2.map .ofList)⟩ := by
  have cut := cutFront.append ordinary_comma (congrArg Reading.escaped top)
    (cut_comment pairs line.comma cutBack)
  rw [← toList_commented] at cut
  have solid : Text.allBlank (.ofList (comment text ++ more.1)) = false := by
    rw [Text.allBlank, String.toList_ofList]
    rfl
  have behind : entries (pieces (prepend (comment text) more)) =
      entry (.ofList (comment text ++ more.1)) :: entries (more.2.map .ofList) := by
    have name : (prepend (comment text) more).1 = comment text ++ more.1 := rfl
    rw [pieces, List.map_cons, entries_cons, name, optionOf?, solid]
    rfl
  rw [parse_of_cut cut, pieces_append, entries_append, behind]

/-- Options with a comment among them are read exactly if its braces and brackets pair. -/
theorem parse_commented_eq_error_iff (cutFront : Cut ',' 0 front.toList parts)
    (top : reading front.toList = ⟨0, false⟩) (cutBack : Cut ',' 0 back.toList more)
    (line : IsLine text) :
    (∃ fault, parse (commented front text back) = .error fault) ↔
      ¬ Reading.Pairs ⟨0, false⟩ (comment text) := by
  constructor
  · rintro ⟨fault, failed⟩ pairs
    rw [parse_commented cutFront top cutBack line pairs] at failed
    cases failed
  · intro unpaired
    cases read : parse (commented front text back) with
    | error fault => exact ⟨fault, rfl⟩
    | ok options =>
      obtain ⟨whole, cut, -⟩ := parse_eq_ok_iff.mp read
      rw [toList_commented] at cut
      obtain ⟨-, behind⟩ := pairs_comma top cut.pairs
      exact absurd (pairs_comment behind cutBack.pairs) unpaired

theorem get?_of_other {option : String × String} {name : String}
    {front behind : List (String × String)} (other : option.1 ≠ name)
    (pairs : options.pairs = front ++ option :: behind) :
    options.get? name = get? ⟨front ++ behind⟩ name := by
  have misses : (option.1 == name) = false := beq_false_of_ne other
  rw [get?, get?, pairs]
  simp [List.find?_append, misses]

/-- A comment behind a comma is no comment. Where its braces and brackets do not pair, no options
are read. Otherwise it renames the next option, or adds one where only blanks are: in its place
stands an option whose name starts with the percent sign. If the comment holds no equals sign, then
that name is the name behind the comment, and the value is the same. All other names find what they
found without the next option. -/
theorem parse_comment (parsed : parse (front ++ "," ++ back) = .ok options)
    (top : reading front.toList = ⟨0, false⟩) (line : IsLine text) :
    ∃ ahead behind, ∃ next : Option (String × String),
      parse front = .ok ⟨ahead⟩ ∧ parse back = .ok ⟨next.toList ++ behind⟩ ∧
      options.pairs = ahead ++ (next.toList ++ behind) ∧
      ((∃ fault, parse (commented front text back) = .error fault) ↔
        ¬ Reading.Pairs ⟨0, false⟩ (comment text)) ∧
      (Reading.Pairs ⟨0, false⟩ (comment text) → ∃ name value,
        parse (commented front text back) = .ok ⟨ahead ++ (name, value) :: behind⟩ ∧
        name.toList.head? = some '%' ∧
        ('=' ∉ text.toList → value = (next.getD ("", "")).2 ∧
          ∃ key, Text.trim key = (next.getD ("", "")).1 ∧
            name = Text.trim (.ofList (comment text) ++ key)) ∧
        ∀ other, other.toList.head? ≠ some '%' →
          get? ⟨ahead ++ (name, value) :: behind⟩ other = get? ⟨ahead ++ behind⟩ other) := by
  obtain ⟨parts, ⟨part, more⟩, cutFront, cutBack, pairs⟩ := cuts_of_parse parsed top
  have later : entries (pieces (part, more)) =
      (optionOf? (.ofList part)).toList ++ entries (more.map .ofList) := by
    rw [pieces, List.map_cons, entries_cons]
  rw [later] at pairs
  refine ⟨_, _, optionOf? (.ofList part), parse_of_cut cutFront, by rw [parse_of_cut cutBack, later],
    pairs, parse_commented_eq_error_iff cutFront top cutBack line, fun paired => ?_⟩
  have alone : Cut ',' 0 part (part, []) := cutBack.whole.1
  obtain ⟨named, cutPart⟩ := alone.exists_at '='
  obtain ⟨inner, cutInner⟩ := (cut_comment paired line.comma alone).exists_at '='
  have starts := head?_entry_comment cutInner
  have read := parse_commented cutFront top cutBack line paired
  rcases found : entry (.ofList (comment text ++ part)) with ⟨name, value⟩
  rw [found] at starts read
  refine ⟨name, value, read, starts, fun unequal => ?_, fun other differs => get?_of_other ?_ rfl⟩
  · obtain ⟨rfl, rfl⟩ := Prod.mk.inj (found.symm.trans (entry_comment paired unequal cutPart))
    rw [← String.toList_ofList (l := part)] at cutPart
    have key : Text.trim (.ofList named.1) = (entry (.ofList part)).1 := by
      rw [entry_of_cut cutPart]
    rw [optionOf?_getD]
    exact ⟨rfl, .ofList named.1, key, by rw [String.ofList_append]⟩
  · rintro rfl
    exact differs starts

theorem parse_comment_of_note :
    parse ("input=py" ++ "," ++ "output=none") =
        .ok ⟨[("input", "py"), ("output", "none")]⟩ ∧
      reading "input=py".toList = ⟨0, false⟩ ∧ IsLine " note" ∧
      ∃ ahead behind, ∃ next : Option (String × String),
        parse "input=py" = .ok ⟨ahead⟩ ∧ parse "output=none" = .ok ⟨next.toList ++ behind⟩ ∧
        [("input", "py"), ("output", "none")] = ahead ++ (next.toList ++ behind) ∧
        ((∃ fault, parse (commented "input=py" " note" "output=none") = .error fault) ↔
          ¬ Reading.Pairs ⟨0, false⟩ (comment " note")) ∧
        (Reading.Pairs ⟨0, false⟩ (comment " note") → ∃ name value,
          parse (commented "input=py" " note" "output=none") =
            .ok ⟨ahead ++ (name, value) :: behind⟩ ∧
          name.toList.head? = some '%' ∧
          ('=' ∉ " note".toList → value = (next.getD ("", "")).2 ∧
            ∃ key, Text.trim key = (next.getD ("", "")).1 ∧
              name = Text.trim (.ofList (comment " note") ++ key)) ∧
          ∀ other, other.toList.head? ≠ some '%' →
            get? ⟨ahead ++ (name, value) :: behind⟩ other = get? ⟨ahead ++ behind⟩ other) := by
  have parsed : parse ("input=py" ++ "," ++ "output=none") =
      .ok ⟨[("input", "py"), ("output", "none")]⟩ := rfl
  have top : reading "input=py".toList = ⟨0, false⟩ := rfl
  have line : IsLine " note" := by decide
  exact ⟨parsed, top, line, parse_comment parsed top line⟩

/-- A comment behind a comma is not always without effect: here the option `output` is hidden. -/
theorem comment_hides_option : ¬ ∀ (front text back : String) (options : Options),
    parse (front ++ "," ++ back) = .ok options → reading front.toList = ⟨0, false⟩ →
      IsLine text → parse (commented front text back) = .ok options := by
  intro all
  have parsed : parse ("input=py" ++ "," ++ "output=none") =
      .ok ⟨[("input", "py"), ("output", "none")]⟩ := rfl
  have read : parse (commented "input=py" " note" "output=none") =
      .ok ⟨[("input", "py"), ("% note\noutput", "none")]⟩ := rfl
  have same := read.symm.trans (all "input=py" " note" "output=none" _ parsed rfl (by decide))
  exact absurd (Except.ok.inj same) (by decide)

end Around
end Quire.Options
