import Quire.Proofs.Bibliography.Lines
import Quire.Proofs.Prose.Comment

/-! Comments in the entries of a bibliography. The lines of an entry are one line of running text
when they are read, so a comment hides all that stands behind it in the entry, not the rest of its
line alone. Main statement: `parse_hides`. -/
namespace Quire.Bibliography

def isWord (c : Char) : Bool := c.isAlpha || c == '@'

def dropStar (cs : List Char) : List Char := cs.drop (if cs.head? = some '*' then 1 else 0)

def behindWord (cs : List Char) : List Char :=
  (dropStar (cs.dropWhile isWord)).dropWhile Text.isBlank

section Words
variable {c : Char} {cs tail : List Char}

theorem dropControlWords_cons (other : c = '\\' → cs.takeWhile isWord = []) :
    dropControlWords (c :: cs) = c :: dropControlWords cs := by
  have none_ : (if c = '\\' then cs.takeWhile isWord else []) = [] := by
    split
    next slash => exact other slash
    next => rfl
  rw [dropControlWords]
  exact if_pos (congrArg List.isEmpty none_)

theorem dropControlWords_word (some_ : cs.takeWhile isWord ≠ []) :
    dropControlWords ('\\' :: cs) = dropControlWords (behindWord cs) := by
  have kept : ((if '\\' = '\\' then cs.takeWhile isWord else []).isEmpty) ≠ true := by
    simpa [List.isEmpty_iff] using some_
  rw [dropControlWords]
  refine (if_neg kept).trans (congrArg dropControlWords ?_)
  rw [if_pos rfl, Text.drop_takeWhile, behindWord, dropStar, ← Text.drop_takeWhile isWord,
    List.drop_drop]
  rfl

theorem length_behindWord_le (cs : List Char) : (behindWord cs).length ≤ cs.length := by
  refine (List.dropWhile_suffix _).length_le.trans ?_
  exact (List.drop_suffix _ _).length_le.trans (List.dropWhile_suffix _).length_le

theorem isWord_of_isStop {s : Char} (stop : Prose.isStop s = true) : isWord s = false := by
  rw [isWord, Prose.isAlpha_of_isStop stop, Bool.false_or, beq_eq_false_iff_ne]
  rintro rfl
  revert stop
  decide

/-- A control word ends in front of a comment and of white space, which goes with it. -/
theorem behindWord_append (stops : Prose.Stops tail) (cs : List Char) :
    behindWord (cs ++ tail) = behindWord cs ++ tail ∨
      behindWord cs = [] ∧ behindWord (cs ++ tail) = tail.dropWhile Text.isBlank := by
  have word : (cs ++ tail).dropWhile isWord = cs.dropWhile isWord ++ tail := by
    rw [List.dropWhile_append]
    split
    next none_ =>
      rw [List.isEmpty_iff.mp none_, List.nil_append]
      cases tail with
      | nil => rfl
      | cons s tail => exact List.dropWhile_cons_of_neg (by simp [isWord_of_isStop (stops s rfl)])
    next => rfl
  have star (cs : List Char) : dropStar (cs ++ tail) = dropStar cs ++ tail := by
    cases cs with
    | nil =>
      have other : tail.head? ≠ some '*' := fun first => absurd (stops '*' first) (by decide)
      rw [List.nil_append, dropStar, if_neg other]
      rfl
    | cons c cs => by_cases first : c = '*' <;> simp [dropStar, first]
  rw [behindWord, behindWord, word, star, List.dropWhile_append]
  split
  next none_ => exact .inr ⟨List.isEmpty_iff.mp none_, rfl⟩
  next => exact .inl rfl

theorem dropControlWords_append (stops : Prose.Stops tail)
    (cs : List Char) :
    ∃ more ∈ [tail, tail.dropWhile Text.isBlank],
      dropControlWords (cs ++ tail) = dropControlWords cs ++ dropControlWords more := by
  induction size : cs.length using Nat.strong_induction_on generalizing cs with
  | _ n ih =>
    cases cs with
    | nil => exact ⟨tail, List.mem_cons_self, by rw [dropControlWords]; rfl⟩
    | cons c cs =>
      have run : (cs ++ tail).takeWhile isWord = cs.takeWhile isWord :=
        stops.takeWhile @isWord_of_isStop cs
      by_cases word : c = '\\' ∧ cs.takeWhile isWord ≠ []
      · obtain ⟨rfl, some_⟩ := word
        rw [List.cons_append, dropControlWords_word some_, dropControlWords_word (by rwa [run])]
        obtain eq | ⟨none_, eq⟩ := behindWord_append stops cs
        · have shorter := length_behindWord_le cs
          rw [eq]
          exact ih _ (by rw [← size, List.length_cons]; omega) _ rfl
        · refine ⟨_, List.mem_cons_of_mem _ List.mem_cons_self, ?_⟩
          rw [eq, none_, dropControlWords]
          rfl
      · have other : c = '\\' → cs.takeWhile isWord = [] := by simpa using word
        obtain ⟨more, among, eq⟩ := ih cs.length (by simp [← size]) cs rfl
        refine ⟨more, among, ?_⟩
        rw [List.cons_append, dropControlWords_cons other, dropControlWords_cons (by rwa [run]), eq,
          List.cons_append]

theorem dropControlWords_comment (cs behind : List Char) :
    dropControlWords (cs ++ '%' :: behind) =
      dropControlWords cs ++ '%' :: dropControlWords behind := by
  have first : dropControlWords ('%' :: behind) = '%' :: dropControlWords behind :=
    dropControlWords_cons fun slash => absurd slash (by decide)
  obtain ⟨more, among, eq⟩ := dropControlWords_append (Prose.stops_comment behind) cs
  obtain rfl : more = '%' :: behind := by simpa [Text.isBlank] using among
  rw [eq, first]

theorem dropControlWords_blank (blank : tail.all Text.isBlank = true) (cs : List Char) :
    ∃ gap, gap.all Text.isBlank = true ∧
      dropControlWords (cs ++ tail) = dropControlWords cs ++ gap := by
  have same (gap : List Char) (blank : gap.all Text.isBlank = true) :
      dropControlWords gap = gap := by
    induction gap with
    | nil => rw [dropControlWords]
    | cons c gap ih =>
      obtain ⟨first, blank⟩ : Text.isBlank c = true ∧ gap.all Text.isBlank = true := by
        simpa using blank
      have other : c ≠ '\\' := by
        rintro rfl
        exact absurd first (by decide)
      rw [dropControlWords_cons fun slash => absurd slash other, ih blank]
  obtain ⟨more, among, eq⟩ := dropControlWords_append (Prose.stops_blank blank) cs
  have none_ : tail.dropWhile Text.isBlank = [] := Text.dropWhile_eq_nil_of_all blank
  have padded : more.all Text.isBlank = true := by
    obtain rfl | rfl : more = tail ∨ more = [] := by simpa [none_] using among
    · exact blank
    · rfl
  exact ⟨more, padded, by rw [eq, same more padded]⟩

theorem dropControlWords_subset (cs : List Char) : dropControlWords cs ⊆ cs := by
  fun_induction dropControlWords cs with
  | case1 => exact List.Subset.refl _
  | case2 =>
    rename_i ih
    exact List.cons_subset_cons _ ih
  | case3 =>
    rename_i ih
    exact fun d member =>
      List.mem_cons_of_mem _ (List.mem_of_mem_drop (List.mem_of_mem_drop (ih member)))

end Words

/-- A text that can be read as running text. -/
def Readable (target : Target) (cs : List Char) : Prop := ∃ out, Prose.convert target cs = .ok out

instance (target : Target) (cs : List Char) : Decidable (Readable target cs) :=
  match read : Prose.convert target cs with
  | .ok out => isTrue ⟨out, read⟩
  | .error _ => isFalse fun ⟨out, read'⟩ => by cases read.symm.trans read'

/-- The scan of a text comes to a comment, at the latest to the one behind `front`. -/
def Comes (target : Target) (front behind : List Char) : Prop :=
  ∃ ahead ∈ Prose.ahead? target (front ++ '%' :: behind), ahead.length ≤ front.length

instance (target : Target) (front behind : List Char) : Decidable (Comes target front behind) :=
  inferInstanceAs (Decidable (∃ ahead ∈ Prose.ahead? target (front ++ '%' :: behind),
    ahead.length ≤ front.length))

/-- A comment between two parts of a text hides the second: the scan comes to it or to an earlier
one, in the text as it is or, where neither the text nor what is in front of the comment can be read
as it is, in the text without its control words. -/
inductive Hides (target : Target) (front behind : List Char) : Prop
  | asWritten (comes : Comes target front behind)
      (readable : Readable target (Text.dropEndWhile Text.isBlank front))
  | withoutWords (whole : ¬ Readable target (front ++ '%' :: behind))
      (cut : ¬ Readable target (Text.dropEndWhile Text.isBlank front))
      (comes : Comes target (dropControlWords front) (dropControlWords behind))
      (readable : Readable target (dropControlWords (Text.dropEndWhile Text.isBlank front)))

section Hides
variable {target : Target} {front behind cs out : List Char}

/-- A comment that the scan comes to is as if there were none. -/
theorem convert_comes (comes : Comes target front behind) (line : '\n' ∉ front ++ '%' :: behind) :
    Prose.convert target (front ++ '%' :: behind) = Prose.convert target front := by
  obtain ⟨ahead, found, within⟩ := comes
  obtain ⟨rest, whole, same⟩ := Prose.convert_ahead found line
  have starts : ahead <+: front := by
    refine List.prefix_of_prefix_length_le ?_ (List.prefix_append front ('%' :: behind)) within
    exact ⟨_, whole.symm⟩
  obtain ⟨tail, rfl⟩ := starts
  rw [List.append_assoc] at whole
  exact (same tail ⟨_, List.append_cancel_left whole⟩).symm

/-- What an entry shows of running text. -/
def shown (out : List Char) : String := Text.trim (.ofList (dropBraces out))

theorem shown_append {pad : List Char} (blank : pad.all Text.isBlank = true) (out : List Char) :
    shown (out ++ pad) = shown out := by
  have led : Text.allBlank "" = true := rfl
  have ended : Text.allBlank (.ofList (dropBraces pad)) = true := by
    rw [Text.allBlank, String.toList_ofList]
    exact List.all_eq_true.mpr fun c member =>
      List.all_eq_true.mp blank c (List.mem_of_mem_filter member)
  have split : String.ofList (dropBraces (out ++ pad)) =
      "" ++ .ofList (dropBraces out) ++ .ofList (dropBraces pad) := by
    rw [dropBraces, List.filter_append, String.ofList_append, String.empty_append]
    rfl
  rw [shown, split, Text.trim_pad led ended]
  rfl

theorem cleanText_of_read (read : Prose.convert target cs = .ok out) :
    cleanText target (.ofList cs) = shown out := by
  simp [cleanText, Prose.normalize, read, shown]

theorem cleanText_of_stripped (unread : ¬ Readable target cs)
    (read : Prose.convert target (dropControlWords cs) = .ok out) :
    cleanText target (.ofList cs) = shown out := by
  cases attempt : Prose.convert target cs with
  | ok out => exact absurd ⟨out, attempt⟩ unread
  | error fault => simp [cleanText, Prose.normalize, attempt, read, shown]

/-- What stands behind a comment that hides it does not count. -/
theorem cleanText_hides (hides : Hides target front behind)
    (line : '\n' ∉ front ++ '%' :: behind) :
    cleanText target (.ofList (front ++ '%' :: behind)) =
      cleanText target (.ofList (Text.dropEndWhile Text.isBlank front)) := by
  obtain ⟨gap, blank, split⟩ := Text.exists_gap front
  cases hides with
  | asWritten comes readable =>
    generalize Text.dropEndWhile Text.isBlank front = cut at readable split ⊢
    subst split
    obtain ⟨out, read⟩ := readable
    obtain ⟨pad, padded, written⟩ :=
      Prose.convert_blank blank (fun member => line (List.mem_append_left _ member)) read
    rw [← convert_comes comes line] at written
    rw [cleanText_of_read read, cleanText_of_read written, shown_append padded]
  | withoutWords whole unread comes readable =>
    generalize Text.dropEndWhile Text.isBlank front = cut at unread readable split ⊢
    subst split
    obtain ⟨out, read⟩ := readable
    obtain ⟨gap', blank', words⟩ := dropControlWords_blank blank cut
    have line' : '\n' ∉ dropControlWords (cut ++ gap) ++ '%' :: dropControlWords behind := by
      rw [← dropControlWords_comment]
      exact fun member => line (dropControlWords_subset _ member)
    obtain ⟨pad, padded, written⟩ := Prose.convert_blank blank' (fun member =>
      line' (List.mem_append_left _ (words ▸ member))) read
    rw [← words, ← convert_comes comes line', ← dropControlWords_comment] at written
    rw [cleanText_of_stripped unread read, cleanText_of_stripped whole written,
      shown_append padded]

end Hides

/-- The text of an entry up to a place in one of its lines. -/
def textUpTo (item : Item) (earlier : List String) (front : String) : List Char :=
  (" ".intercalate ((Draft.ofItem item).lines ++ texts earlier ++ [Text.trimStart front])).toList

/-- The text of an entry behind a place in one of its lines. -/
def textFrom (rest : String) (later : List String) : List Char :=
  (" ".intercalate (Text.trimEnd rest :: texts later)).toList

section Entry
variable {target : Target} {item : Item} {earlier later : List String} {front rest : String}

theorem intercalate_lead (lines : List String) (line : String) (more : List String) :
    " ".intercalate (lines ++ line :: more) =
      " ".intercalate (lines ++ [""]) ++ " ".intercalate (line :: more) := by
  by_cases none_ : lines = []
  · subst none_
    simp
  · rw [String.intercalate_append_of_ne_nil none_ (by simp),
      String.intercalate_append_of_ne_nil none_ (by simp), String.intercalate_singleton,
      String.append_empty]

theorem exists_solid (solid : Text.allBlank front = false) :
    ∃ c ending, (Text.trimStart front).toList = c :: ending ∧ Text.isBlank c = false := by
  rw [toList_trimStart]
  cases start : front.toList.dropWhile Text.isBlank with
  | nil =>
    rw [Text.allBlank, List.all_eq_true.mpr (List.dropWhile_eq_nil_iff.mp start)] at solid
    cases solid
  | cons c ending =>
    have first := List.head?_dropWhile_not Text.isBlank front.toList
    rw [start] at first
    exact ⟨c, ending, rfl, first⟩

theorem trim_comment (solid : Text.allBlank front = false) :
    Text.trim (front ++ "%" ++ rest) = Text.trimStart front ++ ("%" ++ Text.trimEnd rest) := by
  obtain ⟨c, ending, start, -⟩ := exists_solid solid
  have led : (front ++ "%" ++ rest).toList.dropWhile Text.isBlank =
      (Text.trimStart front).toList ++ '%' :: rest.toList := by
    rw [toList_trimStart] at start ⊢
    rw [String.toList_append, String.toList_append, List.append_assoc, List.dropWhile_append,
      if_neg (by simp [start])]
    rfl
  rw [Text.trim, led, Text.dropEndWhile_append_stop (by decide), String.ofList_append,
    String.ofList_toList, String.ofList_cons]
  rfl

theorem text_comment (solid : Text.allBlank front = false)
    (plain : closes (front ++ "%" ++ rest) = false) :
    (" ".intercalate ((Draft.ofItem item).lines ++ texts earlier ++
        texts ((front ++ "%" ++ rest) :: later))).toList =
      textUpTo item earlier front ++ '%' :: textFrom rest later := by
  have added : texts ((front ++ "%" ++ rest) :: later) =
      (Text.trimStart front ++ ("%" ++ Text.trimEnd rest)) :: texts later := by
    rw [← trim_comment solid, ← List.singleton_append, texts_append, texts_plain plain]
    rfl
  rw [added, intercalate_lead, String.intercalate_cons_append, String.intercalate_cons_append,
    textUpTo, intercalate_lead _ (Text.trimStart front), String.intercalate_singleton]
  simp only [textFrom, String.toList_append, List.append_assoc]
  rfl

theorem text_cut (solid : Text.allBlank front = false) :
    (" ".intercalate ((Draft.ofItem item).lines ++ texts earlier ++ [Text.trim front])).toList =
      Text.dropEndWhile Text.isBlank (textUpTo item earlier front) := by
  obtain ⟨c, ending, start, stop⟩ := exists_solid solid
  have alone : Text.dropEndWhile Text.isBlank (c :: ending) =
      c :: Text.dropEndWhile Text.isBlank ending := Text.dropEndWhile_append_stop stop [] ending
  rw [textUpTo, intercalate_lead, intercalate_lead _ (Text.trimStart front),
    String.intercalate_singleton, String.intercalate_singleton, Text.trim_eq, String.toList_append,
    String.toList_append, Text.toList_trimEnd, start, Text.dropEndWhile_append_stop stop, alone]

theorem bracketed?_subset {depth : Int} {cs text rest : List Char}
    (found : bracketed? depth cs = some (text, rest)) : rest ⊆ cs := by
  induction cs generalizing depth text with
  | nil => cases found
  | cons c cs ih =>
    rw [bracketed?] at found
    split at found
    · cases found
      exact List.subset_cons_self c _
    · obtain ⟨⟨text, rest⟩, later, same⟩ := Option.map_eq_some_iff.mp found
      cases same
      exact List.subset_cons_of_subset c (ih later)

theorem behind_label (more : List Char) : (match more with
    | '[' :: inner =>
      match bracketed? 0 inner with
      | some (short, rest) => (some short, rest)
      | none => (none, more)
    | _ => (none, more) : Option (List Char) × List Char).2 ⊆ more := by
  split
  next =>
    split
    next found => exact List.subset_cons_of_subset _ (bracketed?_subset found)
    next => exact List.Subset.refl _
  next => exact List.Subset.refl _

theorem rest_subset {cs : List Char} (read : Item.ofLine? cs = some item) : item.rest ⊆ cs := by
  unfold Item.ofLine? at read
  simp only [Option.bind_eq_bind, Option.bind_eq_some_iff] at read
  obtain ⟨more, starts, read⟩ := read
  obtain rfl := List.isPrefixOf?_eq_some_iff_append_eq.mp starts
  refine List.Subset.trans ?_ (List.subset_append_right _ more)
  split at read
  next inner opened =>
    obtain ⟨⟨key, rest⟩, split, read⟩ := Option.bind_eq_some_iff.mp read
    cases read
    obtain ⟨before, -, same⟩ := Option.map_eq_some_iff.mp split
    cases same
    refine List.Subset.trans (fun d member => ?_) (behind_label more)
    have inside : d ∈ '\x7b' :: inner := List.mem_cons_of_mem _ (List.mem_of_mem_drop member)
    rw [← opened] at inside
    exact (List.dropWhile_suffix _).subset inside
  next => cases read

/-- The text of an entry stands on one line. -/
theorem alone_text {head : String} {lines : List String}
    (among : ∀ line ∈ head :: lines, '\n' ∉ line.toList)
    (read : Item.ofLine? (Text.trimStart head).toList = some item) :
    '\n' ∉ (" ".intercalate ((Draft.ofItem item).lines ++ texts lines)).toList := by
  obtain ⟨first, behind⟩ := List.forall_mem_cons.mp among
  refine Text.not_mem_intercalate (by decide) fun piece member => ?_
  obtain member | member := List.mem_append.mp member
  · unfold Draft.ofItem at member
    dsimp only at member
    split at member
    · cases member
    · obtain rfl := List.mem_singleton.mp member
      intro inside
      have inside := rest_subset read (by simpa using Text.trim_subset _ inside)
      rw [toList_trimStart] at inside
      exact first ((List.dropWhile_suffix _).subset inside)
  · obtain ⟨line, kept, rfl⟩ := List.mem_map.mp member
    exact fun inside => behind line (List.mem_of_mem_filter kept) (Text.trim_subset line inside)

end Entry

/-- A comment that the scan comes to hides the rest of its line and all the lines behind it in its
entry: the bibliography is the same without them. -/
theorem parse_hides {target : Target} {source cut head front rest : String}
    {before earlier later after : List String} {item : Item}
    (source_lines : Text.lines source =
      before ++ head :: earlier ++ (front ++ "%" ++ rest) :: later ++ after)
    (cut_lines : Text.lines cut =
      before ++ head :: earlier ++ front :: later.filter closes ++ after)
    (starts : Item.ofLine? (Text.trimStart head).toList = some item)
    (goOn : ∀ line ∈ earlier ++ (front ++ "%" ++ rest) :: later, GoesOn line)
    (ends : ∀ line ∈ after.head?, Ends line)
    (solid : Text.allBlank front = false) (plain : closes (front ++ "%" ++ rest) = false)
    (hides : Hides target (textUpTo item earlier front) (textFrom rest later)) :
    parse target source = parse target cut := by
  have plain' : closes front = false := by
    rw [String.append_assoc] at plain
    exact closes_of_append plain
  have goOn' : ∀ line ∈ earlier ++ front :: later.filter closes, GoesOn line := by
    rw [List.forall_mem_append, List.forall_mem_cons] at goOn ⊢
    refine ⟨goOn.1, ?_, fun line member => goOn.2.2 line (List.mem_of_mem_filter member)⟩
    rw [String.append_assoc] at goOn
    exact goOn.2.1.of_append solid
  have regroup (line : String) (lines : List String) :
      before ++ head :: earlier ++ line :: lines ++ after =
        before ++ head :: ((earlier ++ line :: lines) ++ after) := by simp
  rw [regroup] at source_lines cut_lines
  have line : '\n' ∉ textUpTo item earlier front ++ '%' :: textFrom rest later := by
    rw [← text_comment solid plain, List.append_assoc, ← texts_append]
    refine alone_text (fun line member => ?_) starts
    refine Text.alone_of_mem_lines (s := source) ?_
    rw [source_lines, ← List.cons_append]
    exact List.mem_append_right _ (List.mem_append_left _ member)
  have same : Draft.finish target ⟨(Draft.ofItem item).key, (Draft.ofItem item).short,
        (Draft.ofItem item).lines ++ texts (earlier ++ (front ++ "%" ++ rest) :: later)⟩ =
      Draft.finish target ⟨(Draft.ofItem item).key, (Draft.ofItem item).short,
        (Draft.ofItem item).lines ++ texts (earlier ++ front :: later.filter closes)⟩ := by
    have cut_texts : texts (earlier ++ front :: later.filter closes) =
        texts earlier ++ [Text.trim front] := by
      rw [texts_append, ← List.singleton_append, texts_append, texts_plain plain', texts_closing,
        List.append_nil]
    have shown_same := cleanText_hides hides line
    rw [← text_comment solid plain, ← text_cut solid, String.ofList_toList,
      String.ofList_toList] at shown_same
    simp only [Draft.finish, cut_texts, texts_append _ (_ :: later), ← List.append_assoc,
      shown_same]
  rw [parse, parse, source_lines, cut_lines]
  refine readLines_congr (fun bib draft => ?_) none
  rw [readLines_item starts, readLines_item starts, readLines_append goOn, readLines_append goOn']
  exact readLines_ends ends same

theorem parse_hides_of_note :
    let head := "\\bibitem[A]\x7ba\x7d V"
    let front := "Y \\emph\x7b5\\%\x7d "
    let later := ["$Z$", "\\end\x7bthebibliography\x7d"]
    let after := ["", "\\bibitem\x7bb\x7d"]
    let item : Item := ⟨some ['A'], ['a'], [' ', 'V']⟩
    let source := "\\bibitem[A]\x7ba\x7d V\nX\nY \\emph\x7b5\\%\x7d % see $\n$Z$\n" ++
      "\\end\x7bthebibliography\x7d\n\n\\bibitem\x7bb\x7d\n"
    let cut := "\\bibitem[A]\x7ba\x7d V\nX\nY \\emph\x7b5\\%\x7d \n" ++
      "\\end\x7bthebibliography\x7d\n\n\\bibitem\x7bb\x7d\n"
    Text.lines source = [] ++ head :: ["X"] ++ (front ++ "%" ++ " see $") :: later ++ after ∧
      Text.lines cut = [] ++ head :: ["X"] ++ front :: later.filter closes ++ after ∧
      Item.ofLine? (Text.trimStart head).toList = some item ∧
      (∀ line ∈ ["X"] ++ (front ++ "%" ++ " see $") :: later, GoesOn line) ∧
      (∀ line ∈ after.head?, Ends line) ∧
      Text.allBlank front = false ∧ closes (front ++ "%" ++ " see $") = false ∧
      Hides .html (textUpTo item ["X"] front) (textFrom " see $" later) ∧
      parse .html source = parse .html cut := by
  intro head front later after item source cut
  have source_lines : Text.lines source =
      [] ++ head :: ["X"] ++ (front ++ "%" ++ " see $") :: later ++ after := by decide +kernel
  have cut_lines : Text.lines cut =
      [] ++ head :: ["X"] ++ front :: later.filter closes ++ after := by decide +kernel
  have starts : Item.ofLine? (Text.trimStart "\\bibitem[A]\x7ba\x7d V").toList =
      some ⟨some ['A'], ['a'], [' ', 'V']⟩ := rfl
  have goOn : ∀ line ∈ ["X"] ++ (front ++ "%" ++ " see $") :: later, GoesOn line := by
    decide +kernel
  have ends : ∀ line ∈ after.head?, Ends line := by decide +kernel
  have solid : Text.allBlank front = false := by decide +kernel
  have plain : closes (front ++ "%" ++ " see $") = false := by decide +kernel
  have hides : Hides .html (textUpTo item ["X"] front) (textFrom " see $" later) :=
    .asWritten (by decide +kernel) (by decide +kernel)
  exact ⟨source_lines, cut_lines, starts, goOn, ends, solid, plain, hides,
    parse_hides source_lines cut_lines starts goOn ends solid plain hides⟩

/-- A comment that the scan comes to does not hide the rest of its line alone: here the next line of
the entry is lost with it. -/
theorem comment_hides_lines : ¬ ∀ (source cut head front rest : String)
    (before earlier later after : List String) (item : Item),
    Text.lines source = before ++ head :: earlier ++ (front ++ "%" ++ rest) :: later ++ after →
    Text.lines cut = before ++ head :: earlier ++ front :: later ++ after →
    Item.ofLine? (Text.trimStart head).toList = some item →
    (∀ line ∈ earlier ++ (front ++ "%" ++ rest) :: later, GoesOn line) →
    (∀ line ∈ after.head?, Ends line) →
    Text.allBlank front = false → closes (front ++ "%" ++ rest) = false →
    Hides .html (textUpTo item earlier front) (textFrom rest later) →
    parse .html source = parse .html cut := by
  intro all
  have same := all "\\bibitem\x7ba\x7d\nX % note\nY\n" "\\bibitem\x7ba\x7d\nX \nY\n"
    "\\bibitem\x7ba\x7d" "X " " note" [] [] ["Y"] [] ⟨none, ['a'], []⟩
    (by decide +kernel) (by decide +kernel) rfl (by decide +kernel) (by decide +kernel)
    (by decide +kernel) (by decide +kernel) (.asWritten (by decide +kernel) (by decide +kernel))
  have hidden : (parse .html "\\bibitem\x7ba\x7d\nX % note\nY\n").toOption.bind (·.get? "a") =
      some ⟨"a", "a", "X"⟩ := by decide +kernel
  have shown : (parse .html "\\bibitem\x7ba\x7d\nX \nY\n").toOption.bind (·.get? "a") =
      some ⟨"a", "a", "X Y"⟩ := by decide +kernel
  rw [same, shown] at hidden
  exact absurd hidden (by decide)

end Quire.Bibliography
