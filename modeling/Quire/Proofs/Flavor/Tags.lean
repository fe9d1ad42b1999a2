import Quire.Flavor.Html
import Quire.Proofs.Flavor.Escape
import Quire.Proofs.Text.Trim

/-! The tags of an HTML text as a reader sees them from the left: what is open at each place, and
whether a closing tag closes the innermost element. A text that reads from one stack of open
elements to another does so above any further elements. -/
namespace Quire.Html

structure Reader where
  /-- What was read of the tag that is open, none between tags. -/
  tag : Option (List Char)
  /-- The names of the open elements, the innermost first. -/
  opened : List (List Char)
deriving DecidableEq

namespace Reader

/-- The open elements after a tag. A closing tag closes the innermost element or is refused, and a
tag that ends in a slash is an element by itself. -/
def after (opened : List (List Char)) (text : List Char) : Option (List (List Char)) :=
  if text.head? = some '/' then
    if opened.head? = some text.tail then some opened.tail else none
  else if text.getLast? = some '/' then some opened
  else some (text.takeWhile (· != ' ') :: opened)

def step (r : Reader) (c : Char) : Option Reader :=
  match r.tag with
  | none => some (if c = '<' then { r with tag := some [] } else r)
  | some text =>
    if c = '>' then (after r.opened text).map fun opened => ⟨none, opened⟩
    else some { r with tag := some (text ++ [c]) }

def under (r : Reader) (base : List (List Char)) : Reader := { r with opened := r.opened ++ base }

theorem after_append {opened next : List (List Char)} {text : List Char}
    (read : after opened text = some next) (base : List (List Char)) :
    after (opened ++ base) text = some (next ++ base) := by
  unfold after at read ⊢
  by_cases closing : text.head? = some '/'
  · rw [if_pos closing] at read ⊢
    split at read
    next same =>
      obtain rfl := Option.some.inj read
      cases opened with
      | nil => cases same
      | cons innermost outer => exact if_pos same
    next => cases read
  · rw [if_neg closing] at read ⊢
    split at read
    next ended =>
      obtain rfl := Option.some.inj read
      rw [if_pos ended]
    next opening =>
      obtain rfl := Option.some.inj read
      rw [if_neg opening]
      rfl

theorem step_under {r next : Reader} {c : Char} (read : r.step c = some next)
    (base : List (List Char)) : (r.under base).step c = some (next.under base) := by
  obtain ⟨tag, opened⟩ := r
  cases tag with
  | none =>
    obtain rfl := Option.some.inj read
    simp only [step, under]
    split <;> rfl
  | some text =>
    simp only [step, under] at read ⊢
    split at read
    next ends =>
      obtain ⟨rest, closed, rfl⟩ := Option.map_eq_some_iff.mp read
      rw [if_pos ends, after_append closed base]
      rfl
    next goes =>
      obtain rfl := Option.some.inj read
      exact if_neg goes

end Reader

/-- A text that starts and ends between tags, with the open elements before and after it. -/
def Reads (before : List (List Char)) (text : List Char) (opened : List (List Char)) : Prop :=
  text.foldlM Reader.step ⟨none, before⟩ = some ⟨none, opened⟩

instance (before : List (List Char)) (text : List Char) (opened : List (List Char)) :
    Decidable (Reads before text opened) := inferInstanceAs (Decidable (_ = _))

/-- Every closing tag closes the element that was opened last among those still open, and nothing
is left open at the end. -/
def WellNested (body : String) : Prop := Reads [] body.toList []

instance (body : String) : Decidable (WellNested body) :=
  inferInstanceAs (Decidable (Reads [] body.toList []))

namespace Reads

variable {a b d : List (List Char)} {cs ds : List Char}

theorem append (first : Reads a cs b) (second : Reads b ds d) : Reads a (cs ++ ds) d := by
  unfold Reads
  rw [List.foldlM_append, first]
  exact second

theorem under (reads : Reads a cs b) (base : List (List Char)) :
    Reads (a ++ base) cs (b ++ base) := by
  have run (cs : List Char) : ∀ {r t : Reader}, cs.foldlM Reader.step r = some t →
      cs.foldlM Reader.step (r.under base) = some (t.under base) := by
    induction cs with
    | nil =>
      intro r t read
      cases read
      rfl
    | cons c cs ih =>
      intro r t read
      rw [List.foldlM_cons] at read ⊢
      obtain ⟨next, stepped, read⟩ := Option.bind_eq_some_iff.mp read
      rw [Reader.step_under stepped base]
      exact ih read
  exact run cs reads

/-- What reads alone reads inside of any elements. -/
theorem anywhere (reads : Reads [] cs []) (base : List (List Char)) : Reads base cs base :=
  reads.under base

theorem of_plain (plain : '<' ∉ cs) (base : List (List Char)) : Reads base cs base := by
  induction cs with
  | nil => rfl
  | cons c cs ih =>
    obtain ⟨other, rest⟩ := List.ne_and_not_mem_of_not_mem_cons plain
    have stays : Reader.step ⟨none, base⟩ c = some ⟨none, base⟩ :=
      congrArg some (if_neg (Ne.symm other))
    unfold Reads
    rw [List.foldlM_cons, stays]
    exact ih rest

/-- A tag is read as a whole. -/
theorem of_tag {text : List Char} (inside : '>' ∉ text) (read : Reader.after a text = some b) :
    Reads a ('<' :: text ++ ['>']) b := by
  have run (more : List Char) : ∀ front : List Char, '>' ∉ more →
      more.foldlM Reader.step ⟨some front, a⟩ = some ⟨some (front ++ more), a⟩ := by
    induction more with
    | nil => simp
    | cons c more ih =>
      intro front inside
      obtain ⟨other, rest⟩ := List.ne_and_not_mem_of_not_mem_cons inside
      have kept : Reader.step ⟨some front, a⟩ c = some ⟨some (front ++ [c]), a⟩ :=
        if_neg (Ne.symm other)
      rw [List.foldlM_cons, kept]
      simpa using ih (front ++ [c]) rest
  have closed : Reader.step ⟨some text, a⟩ '>' = some ⟨none, b⟩ := by
    simp [Reader.step, read]
  have opened : Reader.step ⟨none, a⟩ '<' = some ⟨some [], a⟩ := rfl
  unfold Reads
  rw [List.cons_append, List.foldlM_cons, opened]
  change (text ++ ['>']).foldlM Reader.step ⟨some [], a⟩ = _
  rw [List.foldlM_append, run text [] inside]
  exact (bind_pure _).trans closed

/-- A tag with attributes opens an element. -/
theorem of_attributes (name attributes : List Char) (spaceless : ' ' ∉ name)
    (nameInside : '>' ∉ name) (opening : name.head? ≠ some '/') (inside : '>' ∉ attributes)
    (base : List (List Char)) :
    Reads base ('<' :: (name ++ ' ' :: attributes ++ ['\'']) ++ ['>']) (name :: base) := by
  refine of_tag ?_ ?_
  · simp [nameInside, inside]
  · have opens : (name ++ ' ' :: attributes ++ ['\'']).head? ≠ some '/' := by
      cases name with
      | nil => simp
      | cons => exact opening
    have ended : (name ++ ' ' :: attributes ++ ['\'']).getLast? ≠ some '/' := by
      rw [List.getLast?_concat]
      decide
    have letters : ∀ c ∈ name, (c != ' ') = true := by
      intro c member
      exact bne_iff_ne.mpr fun same => spaceless (same ▸ member)
    have named : (name ++ ' ' :: attributes ++ ['\'']).takeWhile (· != ' ') = name := by
      rw [List.append_assoc, List.takeWhile_append_of_pos letters]
      simp
    rw [Reader.after, if_neg opens, if_neg ended, named]

theorem step_blank {c : Char} (blank : Text.isBlank c = true) (r : Reader) :
    ∃ next, r.step c = some next ∧ (next.tag = none → next = r) := by
  have notOpen : c ≠ '<' := by rintro rfl; cases blank
  have notClose : c ≠ '>' := by rintro rfl; cases blank
  obtain ⟨tag, opened⟩ := r
  cases tag with
  | none => exact ⟨_, congrArg some (if_neg notOpen), fun _ => rfl⟩
  | some text => exact ⟨_, if_neg notClose, nofun⟩

/-- White space at the end of a text is no part of a tag. -/
theorem trimEnd (reads : Reads a cs b) : Reads a (Text.dropEndWhile Text.isBlank cs) b := by
  induction cs using List.reverseRecOn with
  | nil => exact reads
  | append_singleton cs c ih =>
    have cut : Text.dropEndWhile Text.isBlank (cs ++ [c]) =
        if Text.isBlank c then Text.dropEndWhile Text.isBlank cs else cs ++ [c] :=
      List.rdropWhile_concat Text.isBlank cs c
    rw [cut]
    split
    next blank =>
      unfold Reads at reads
      rw [List.foldlM_append] at reads
      obtain ⟨r, read, last⟩ := Option.bind_eq_some_iff.mp reads
      obtain ⟨next, stepped, same⟩ := step_blank blank r
      rw [List.foldlM_cons, stepped] at last
      obtain rfl : next = ⟨none, b⟩ := Option.some.inj last
      rw [← same rfl] at read
      exact ih read
    next => exact reads

theorem trimStart (reads : Reads a cs b) : Reads a (cs.dropWhile Text.isBlank) b := by
  induction cs with
  | nil => exact reads
  | cons c cs ih =>
    rw [List.dropWhile_cons]
    split
    next blank =>
      have notOpen : c ≠ '<' := by rintro rfl; cases blank
      have stays : Reader.step ⟨none, a⟩ c = some ⟨none, a⟩ := congrArg some (if_neg notOpen)
      unfold Reads at reads
      rw [List.foldlM_cons, stays] at reads
      exact ih reads
    next => exact reads

/-- A text on its own between a front and a back. -/
theorem around {front text back : String} (opens : Reads a front.toList b)
    (inner : Reads [] text.toList []) (closes : Reads b back.toList d) :
    Reads a (front ++ text ++ back).toList d := by
  rw [String.toList_append, String.toList_append]
  exact (opens.append (inner.anywhere b)).append closes

end Reads

/-! Text in place of characters that mean something, and the texts that a page is made of. -/

theorem not_mem_escape (s : String) : '<' ∉ (escape s).toList := (isContent_escape s).lt

section Pieces

variable (base : List (List Char))

theorem reads_paragraphOpen : Reads base "\n<p>".toList ("p".toList :: base) :=
  Reads.under (a := []) (b := ["p".toList]) (by decide) base

theorem reads_paragraphClose : Reads ("p".toList :: base) "</p>\n".toList base :=
  Reads.under (a := ["p".toList]) (b := []) (by decide) base

def markupTag : Markup → String
  | .emphasis => "em"
  | .bold => "strong"
  | .code => "code"
  | .smallCaps => "span"
  | .underline => "u"

theorem reads_markupOpen (markup : Markup) :
    Reads base (markupOpen markup).toList ((markupTag markup).toList :: base) := by
  have alone : Reads [] (markupOpen markup).toList [(markupTag markup).toList] := by
    cases markup <;> decide
  exact alone.under base

theorem reads_markupClose (markup : Markup) :
    Reads ((markupTag markup).toList :: base) (markupClose markup).toList base := by
  have alone : Reads [(markupTag markup).toList] (markupClose markup).toList [] := by
    cases markup <;> decide
  exact alone.under base

theorem reads_listOpen (kind : ListKind) :
    Reads base (listOpen kind).toList ((listTag kind).toList :: base) := by
  have alone : Reads [] (listOpen kind).toList [(listTag kind).toList] := by
    cases kind <;> decide
  exact alone.under base

theorem reads_listClose (kind : ListKind) :
    Reads ((listTag kind).toList :: base) (listClose kind).toList base := by
  have alone : Reads [(listTag kind).toList] (listClose kind).toList [] := by
    cases kind <;> decide
  exact alone.under base

def itemTag : ListKind → String
  | .description => "dd"
  | _ => "li"

/-- The title of an item stands in an element of its own. -/
theorem reads_itemOpen (kind : ListKind) {title : Option String}
    (titled : ∀ text ∈ title, Reads [] text.toList []) :
    Reads base (itemOpen kind title).toList ((itemTag kind).toList :: base) := by
  suffices alone : Reads [] (itemOpen kind title).toList [(itemTag kind).toList] from
    alone.under base
  have term : Reads [] (title.getD "").toList [] := by
    cases title with
    | none => decide
    | some text => exact titled text rfl
  have defined : Reads [] ("\n  <dt>" ++ title.getD "" ++ "</dt><dd>").toList ["dd".toList] :=
    .around (b := ["dt".toList]) (by decide) term (by decide)
  cases kind with
  | description => exact defined
  | itemize | enumerate =>
    cases title with
    | none => decide
    | some text =>
      exact .around (b := ["strong".toList, "li".toList]) (by decide) (titled text rfl) (by decide)

theorem reads_itemClose (kind : ListKind) :
    Reads ((itemTag kind).toList :: base) (itemClose kind).toList base := by
  have alone : Reads [(itemTag kind).toList] (itemClose kind).toList [] := by
    cases kind <;> decide
  exact alone.under base

theorem reads_featureOpen :
    Reads base (blockOpen "feature").toList ("div".toList :: base) :=
  Reads.under (a := []) (b := ["div".toList]) (by decide) base

theorem reads_blockClose : Reads ("div".toList :: base) "\n</div>\n".toList base :=
  Reads.under (a := ["div".toList]) (b := []) (by decide) base

theorem reads_inlineMath (tex : String) : Reads base (inlineMath tex).toList base := by
  refine .of_plain ?_ base
  simp [inlineMath, not_mem_escape]

theorem reads_displayMath (tex : String) : Reads base (displayMath tex).toList base := by
  refine .of_plain ?_ base
  simp [displayMath, not_mem_escape]

def headingTag (level : Level) : String := "h" ++ toString level.rank

theorem reads_headingOpen (level : Level) {anchor number : String}
    (anchored : '>' ∉ anchor.toList) (numbered : '<' ∉ number.toList) :
    Reads base (headingOpen level anchor number).toList ((headingTag level).toList :: base) := by
  have opening : Reads base ("\n<h" ++ toString level.rank ++ " id='" ++ anchor ++ "'>").toList
      ((headingTag level).toList :: base) := by
    have tag := Reads.of_attributes (headingTag level).toList ("id='".toList ++ anchor.toList)
      (by cases level <;> decide) (by cases level <;> decide) (by cases level <;> decide)
      (by simp [anchored]) base
    have eq : ("\n<h" ++ toString level.rank ++ " id='" ++ anchor ++ "'>").toList =
        ['\n'] ++ ('<' :: ((headingTag level).toList ++ ' ' :: ("id='".toList ++ anchor.toList) ++
          ['\'']) ++ ['>']) := by
      simp [headingTag]
    rw [eq]
    exact (Reads.of_plain (by decide) base).append tag
  unfold headingOpen
  split
  next => exact opening
  next =>
    let heading := (headingTag level).toList :: base
    have small : Reads heading "<small class='text-muted'>".toList ("small".toList :: heading) :=
      Reads.under (a := []) (b := ["small".toList]) (by decide) heading
    have link := Reads.of_attributes "a".toList ("class='anchor' href='#".toList ++ anchor.toList)
      (by decide) (by decide) (by decide) (by simp [anchored]) ("small".toList :: heading)
    have shown := Reads.of_plain numbered ("a".toList :: "small".toList :: heading)
    have closing : Reads ("a".toList :: "small".toList :: heading) "</a></small> ".toList heading :=
      Reads.under (a := ["a".toList, "small".toList]) (b := []) (by decide) heading
    have whole := ((opening.append small).append link).append (shown.append closing)
    convert whole using 1
    simp

theorem reads_headingClose (level : Level) :
    Reads ((headingTag level).toList :: base) (headingClose level).toList base := by
  have alone : Reads [(headingTag level).toList] (headingClose level).toList [] := by
    cases level <;> decide
  exact alone.under base

end Pieces

end Quire.Html
