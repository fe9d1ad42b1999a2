import Mathlib.Algebra.Order.BigOperators.Group.List
import Mathlib.Algebra.Order.Group.Nat
import Quire.Proofs.Text.Numeral
import Quire.Proofs.Text.Trim
import Quire.Walk.State

/-! Markers of notes in a text. How a marker is numbered depends on the notes before it. A text that
changes with their number in its markers only is made up of the markers and of what stands around
them, and what is done to texts on the way to a page keeps that so. -/
namespace Quire

/-- Something for each number of notes that may come before it. -/
abbrev Numbered (α : Type) := Nat → α

/-- The text is made up of the markers of these notes, in this order, and of text around them that
is the same whatever number of notes comes before. -/
inductive Shows (t : Target) : List Nat → Numbered String → Prop
  | plain (text : String) : Shows t [] fun _ => text
  | marker (before : String) (number : Nat) {numbers : List Nat} {rest : Numbered String}
      (shown : Shows t numbers rest) :
    Shows t (number :: numbers) fun earlier =>
      before ++ t.flavor.footnoteMarker (earlier + number) ++ rest earlier

inductive ShowsAll (t : Target) : List Nat → List (Numbered String) → Prop
  | nil : ShowsAll t [] []
  | cons {a b : List Nat} {text : Numbered String} {texts : List (Numbered String)}
      (first : Shows t a text) (others : ShowsAll t b texts) : ShowsAll t (a ++ b) (text :: texts)

namespace Text

/-- Line feeds become blanks one by one. -/
theorem replace_lineFeed (s : String) :
    replace "\n" " " s = .ofList (s.toList.map fun c => if c = '\n' then ' ' else c) := by
  rw [replace]
  congr 1
  induction s.toList with
  | nil => rw [replaceChars] <;> simp
  | cons c cs ih =>
    rw [show "\n".toList = ['\n'] from rfl, show " ".toList = [' '] from rfl] at ih ⊢
    rw [replaceChars]
    by_cases feed : c = '\n'
    · simp [feed, List.isPrefixOf, ih]
    · have differs : ('\n' == c) = false := by simpa using Ne.symm feed
      simp [List.isPrefixOf, differs, feed, ih]

end Text

/-- A text that no trim reaches into, on one line. -/
structure Solid (text : String) : Prop where
  head : ∃ c, text.toList.head? = some c ∧ Text.isBlank c = false
  last : ∃ c, text.toList.getLast? = some c ∧ Text.isBlank c = false
  oneLine : '\n' ∉ text.toList

theorem solid_marker (t : Target) (number : Nat) : Solid (t.flavor.footnoteMarker number) := by
  have digits := Text.not_mem_toDigits (c := '\n') (by decide) number
  cases t with
  | html =>
    simp only [Target.flavor, Html.flavor, Html.footnoteMarker, String.join_cons, String.join_nil,
      String.append_empty]
    refine ⟨⟨'<', by simp, by decide⟩, ⟨'>', ?_, by decide⟩, by simp [digits]⟩
    simp only [String.toList_append, List.getLast?_append]
    rfl
  | quarto =>
    simp only [Target.flavor, Quarto.flavor, Quarto.footnoteMarker]
    refine ⟨⟨'[', by simp, by decide⟩, ⟨']', ?_, by decide⟩, by simp [digits]⟩
    simp only [String.toList_append, List.getLast?_append]
    rfl

namespace Shows

variable {t : Target} {a b : List Nat} {s u : Numbered String}

theorem congr (shown : Shows t a s) (same : ∀ n, u n = s n) : Shows t a u := by
  rwa [funext same]

theorem append (first : Shows t a s) (second : Shows t b u) :
    Shows t (a ++ b) fun n => s n ++ u n := by
  induction first with
  | plain text =>
    cases second with
    | plain more => exact .plain (text ++ more)
    | marker before number shown =>
      exact (marker (text ++ before) number shown).congr fun n => by
        simp only [String.append_assoc]
  | marker before number _ ih =>
    exact (marker before number ih).congr fun n => by simp only [String.append_assoc]

theorem behind (before : String) (shown : Shows t a s) : Shows t a fun n => before ++ s n :=
  (plain before).append shown

theorem before (shown : Shows t a s) (behind : String) : Shows t a fun n => s n ++ behind := by
  have both := shown.append (.plain behind)
  rwa [List.append_nil] at both

/-- A text without markers is always the same, and one with a marker is never blank. -/
theorem plain_or_solid (shown : Shows t a s) :
    (a = [] ∧ ∃ text, s = fun _ => text) ∨ ∀ n, Text.allBlank (s n) = false := by
  cases shown with
  | plain text => exact .inl ⟨rfl, text, rfl⟩
  | marker before number shown =>
    refine .inr fun n => ?_
    obtain ⟨c, first, solid⟩ := (solid_marker t (n + number)).head
    obtain ⟨rest, eq⟩ := List.head?_eq_some_iff.mp first
    simp [Text.allBlank, eq, solid]

theorem trimStart (shown : Shows t a s) : Shows t a fun n => Text.trimStart (s n) := by
  cases shown with
  | plain text => exact .plain (Text.trimStart text)
  | marker before number shown =>
    refine (marker (Text.trimStart before) number shown).congr fun n => ?_
    obtain ⟨c, first, solid⟩ := (solid_marker t (n + number)).head
    obtain ⟨cs, eq⟩ := List.head?_eq_some_iff.mp first
    rw [← String.toList_inj]
    simp only [Text.trimStart, Text.dropFront, String.toList_append, String.toList_ofList,
      List.append_assoc]
    rw [List.dropWhile_append]
    split
    next empty =>
      rw [List.isEmpty_iff.mp empty, eq, List.cons_append, List.dropWhile_cons, solid]
      rfl
    next => rfl

theorem trimEnd (shown : Shows t a s) : Shows t a fun n => Text.trimEnd (s n) := by
  induction shown with
  | plain text => exact .plain (Text.trimEnd text)
  | marker before number _ ih =>
    refine (marker before number ih).congr fun n => ?_
    obtain ⟨c, last, solid⟩ := (solid_marker t (n + number)).last
    obtain ⟨cs, eq⟩ := List.getLast?_eq_some_iff.mp last
    rw [← String.toList_inj]
    simp only [Text.toList_trimEnd, String.toList_append, eq, List.append_assoc,
      List.singleton_append]
    rw [← List.append_assoc, Text.dropEndWhile_append_stop solid, List.append_assoc]

theorem trim (shown : Shows t a s) : Shows t a fun n => Text.trim (s n) :=
  shown.trimStart.trimEnd.congr fun n => Text.trim_eq (s n)

/-- A text that is put on one line keeps its markers. -/
theorem onOneLine (shown : Shows t a s) : Shows t a fun n => Text.replace "\n" " " (s n) := by
  induction shown with
  | plain text => exact .plain (Text.replace "\n" " " text)
  | marker before number _ ih =>
    refine (marker (Text.replace "\n" " " before) number ih).congr fun n => ?_
    have oneLine := (solid_marker t (n + number)).oneLine
    simp only [Text.replace_lineFeed, String.toList_append, List.map_append, String.ofList_append]
    congr 2
    rw [← String.toList_inj, String.toList_ofList]
    refine (List.map_congr_left fun c member => ?_).trans (List.map_id _)
    have differs : c ≠ '\n' := fun feed => oneLine (feed ▸ member)
    exact if_neg differs

end Shows

/-! The length of a text tells its markers: it grows where a number gets another digit. -/

/-- How often a marker shows its number. -/
def showings : Target → Nat
  | .html => 3
  | .quarto => 1

theorem length_marker (t : Target) (number : Nat) : (t.flavor.footnoteMarker number).length =
    (t.flavor.footnoteMarker 0).length - showings t +
      showings t * (toString number : String).length := by
  have zero : (toString 0 : String).length = 1 := by decide
  cases t <;>
    simp only [Target.flavor, Html.flavor, Html.footnoteMarker, Quarto.flavor,
      Quarto.footnoteMarker, String.join_cons, String.join_nil, String.length_append, zero,
      showings] <;>
    omega

namespace Text

/-- A number of about `10 ^ digits` has a digit more when it reaches it. -/
theorem length_toString {digits n : Nat} (low : 10 ^ digits ≤ 10 * n)
    (high : n < 10 * 10 ^ digits) :
    (toString n : String).length = digits + if 10 ^ digits ≤ n then 1 else 0 := by
  have length_le (k : Nat) (some_ : 0 < k) : (Nat.toDigits 10 n).length ≤ k ↔ n < 10 ^ k :=
    Nat.length_toDigits_le_iff (by decide) some_
  have pos : 0 < (Nat.toDigits 10 n).length := List.length_pos_iff.mpr Nat.toDigits_ne_nil
  have most := (length_le (digits + 1) (by omega)).mpr (by rw [Nat.pow_succ]; omega)
  rw [Nat.toString_eq_repr, ← String.length_toList, Nat.toList_repr]
  cases digits with
  | zero =>
    have some_ : 1 ≤ n := by omega
    simp only [Nat.pow_zero, some_, if_true]
    omega
  | succ d =>
    have least : d < (Nat.toDigits 10 n).length := by
      cases d with
      | zero => exact pos
      | succ d =>
        have above := mt (length_le (d + 1) (by omega)).mp
          (by rw [Nat.pow_succ] at low; omega)
        omega
    have reaches := length_le (d + 1) (by omega)
    split <;> omega

end Text

/-- How long numbers are when `n` notes come before, all of them together. -/
def lengths (n : Nat) : List Nat → Nat
  | [] => 0
  | number :: numbers => (toString (n + number) : String).length + lengths n numbers

namespace Shows

variable {t : Target} {a b : List Nat} {s : Numbered String}

theorem length_eq (shown : Shows t a s) :
    ∃ fixed, ∀ n, (s n).length = fixed + showings t * lengths n a := by
  induction shown with
  | plain text => exact ⟨text.length, fun n => by simp [lengths]⟩
  | @marker before number numbers rest _ ih =>
    obtain ⟨fixed, length_rest⟩ := ih
    refine ⟨before.length + ((t.flavor.footnoteMarker 0).length - showings t) + fixed, fun n => ?_⟩
    rw [String.length_append, String.length_append, length_marker, length_rest, lengths,
      Nat.mul_add]
    omega

/-- Near a power of ten, what a text gains in length is from the numbers that reach it. -/
theorem length_near {most digits : Nat} (shown : Shows t a s) (small : ∀ number ∈ a, number ≤ most)
    (far : 10 * (most + 1) ≤ 9 * 10 ^ digits) : ∃ fixed, ∀ back, back ≤ most + 1 →
      (s (10 ^ digits - back)).length = fixed + showings t * a.countP (back ≤ ·) := by
  obtain ⟨fixed, length_eq⟩ := shown.length_eq
  refine ⟨fixed + showings t * (digits * a.length), fun back near => ?_⟩
  have digits_eq : ∀ number ∈ a, (toString (10 ^ digits - back + number) : String).length =
      digits + if back ≤ number then 1 else 0 := by
    intro number member
    have bound := small number member
    rw [@Text.length_toString digits _ (by omega) (by omega)]
    have reaches : 10 ^ digits ≤ 10 ^ digits - back + number ↔ back ≤ number := by omega
    simp only [reaches]
  have lengths_eq : lengths (10 ^ digits - back) a = digits * a.length + a.countP (back ≤ ·) := by
    clear shown small length_eq
    induction a with
    | nil => simp [lengths]
    | cons number a ih =>
      rw [lengths, digits_eq number List.mem_cons_self,
        ih fun other member => digits_eq other (List.mem_cons_of_mem _ member)]
      simp only [List.length_cons, List.countP_cons, Nat.mul_succ, decide_eq_true_eq]
      omega
  rw [length_eq, lengths_eq, Nat.mul_add, Nat.add_assoc]

theorem count_eq (number : Nat) (numbers : List Nat) : numbers.count number =
    numbers.countP (number ≤ ·) - numbers.countP (number + 1 ≤ ·) := by
  have split_ : numbers.countP (number ≤ ·) =
      numbers.count number + numbers.countP (number + 1 ≤ ·) := by
    induction numbers with
    | nil => rfl
    | cons first numbers ih =>
      simp only [List.countP_cons, List.count_cons, ih, decide_eq_true_eq, beq_iff_eq]
      split <;> split <;> split <;> omega
  omega

/-- No text shows other markers than its own, or one of them more often. -/
theorem unique (one : Shows t a s) (other : Shows t b s) : a.Perm b := by
  have least : ∀ number ∈ a ++ b, number ≤ (a ++ b).sum := fun number => List.le_sum_of_mem
  have far : 10 * ((a ++ b).sum + 1) ≤ 9 * 10 ^ ((a ++ b).sum + 2) := by
    have above := Nat.lt_pow_self (n := (a ++ b).sum) (show 1 < 10 by decide)
    rw [Nat.pow_succ, Nat.pow_succ]
    omega
  obtain ⟨fixed, length_a⟩ := one.length_near (fun number member => least number (by simp [member])) far
  obtain ⟨fixed', length_b⟩ :=
    other.length_near (fun number member => least number (by simp [member])) far
  have above {c : List Nat} {back : Nat} (sub : c ⊆ a ++ b) (beyond : (a ++ b).sum < back) :
      c.countP (back ≤ ·) = 0 := by
    refine List.countP_eq_zero.mpr fun number member reaches => ?_
    have bound := least number (sub member)
    rw [decide_eq_true_eq] at reaches
    omega
  have in_a : a ⊆ a ++ b := List.subset_append_left a b
  have in_b : b ⊆ a ++ b := List.subset_append_right a b
  have fixed_eq : fixed = fixed' := by
    have eq := (length_a _ (Nat.le_refl _)).symm.trans (length_b _ (Nat.le_refl _))
    rwa [above in_a (Nat.lt_succ_self _), above in_b (Nat.lt_succ_self _)] at eq
  have counts (back : Nat) : a.countP (back ≤ ·) = b.countP (back ≤ ·) := by
    obtain near | beyond := Nat.lt_or_ge (a ++ b).sum back |>.symm
    · have eq := (length_a _ (Nat.le_succ_of_le near)).symm.trans
        (length_b _ (Nat.le_succ_of_le near))
      rw [fixed_eq, Nat.add_left_cancel_iff] at eq
      exact Nat.eq_of_mul_eq_mul_left (by cases t <;> decide) eq
    · rw [above in_a beyond, above in_b beyond]
  exact List.perm_iff_count.mpr fun number => by rw [count_eq, count_eq, counts, counts]

end Shows

namespace ShowsAll

variable {t : Target} {a b : List Nat} {texts more : List (Numbered String)}

theorem single {s : Numbered String} (shown : Shows t a s) : ShowsAll t a [s] := by
  simpa using cons shown nil

theorem of_single {s : Numbered String} (shown : ShowsAll t a [s]) : Shows t a s := by
  cases shown with
  | cons first others =>
    cases others
    simpa using first

theorem append (first : ShowsAll t a texts) (second : ShowsAll t b more) :
    ShowsAll t (a ++ b) (texts ++ more) := by
  induction first with
  | nil => exact second
  | cons shown _ ih =>
    rw [List.append_assoc]
    exact .cons shown ih

theorem of_append {texts : List (Numbered String)} (shown : ShowsAll t a (texts ++ more)) :
    ∃ b c, a = b ++ c ∧ ShowsAll t b texts ∧ ShowsAll t c more := by
  induction texts generalizing a with
  | nil => exact ⟨[], a, rfl, .nil, shown⟩
  | cons text texts ih =>
    cases shown with
    | @cons b c _ _ first others =>
      obtain ⟨d, e, rfl, front, back⟩ := ih others
      exact ⟨b ++ d, e, (List.append_assoc _ _ _).symm, .cons first front, back⟩

/-- Each text may be put into another one, by its place, and all of these after one another. -/
theorem join {f : Nat → String → String}
    (each : ∀ i a text, Shows t a text → Shows t a fun n => f i (text n))
    (shown : ShowsAll t a texts) :
    Shows t a fun n => String.join ((texts.map (· n)).mapIdx f) := by
  induction shown generalizing f with
  | nil => exact .plain (String.join [])
  | cons first _ ih =>
    refine ((each 0 _ _ first).append (ih fun i => each (i + 1))).congr fun n => ?_
    rw [List.map_cons, List.mapIdx_cons, String.join_cons]

/-- Texts in another order show the notes in another order. -/
theorem perm {texts' : List (Numbered String)} (same : texts.Perm texts')
    (shown : ShowsAll t a texts) : ∃ b, ShowsAll t b texts' ∧ b.Perm a := by
  induction same generalizing a with
  | nil => exact ⟨a, shown, .refl _⟩
  | cons text _ ih =>
    cases shown with
    | cons first others =>
      obtain ⟨b, shown, same⟩ := ih others
      exact ⟨_, .cons first shown, same.append_left _⟩
  | swap x y texts =>
    cases shown with
    | @cons a _ _ _ first others =>
      cases others with
      | @cons b c _ _ second others =>
        refine ⟨_, .cons second (.cons first others), ?_⟩
        rw [← List.append_assoc, ← List.append_assoc]
        exact List.perm_append_comm.append_right _
  | trans _ _ ih ih' =>
    obtain ⟨b, shown, same⟩ := ih shown
    obtain ⟨c, shown, same'⟩ := ih' shown
    exact ⟨c, shown, same'.trans same⟩

end ShowsAll

namespace Shows

variable {t : Target} {a : List Nat} {s : Numbered String}

theorem link (href : String) (shown : Shows t a s) : Shows t a fun n => t.flavor.link href (s n) := by
  cases t with
  | html => exact (shown.behind _).before _
  | quarto => exact (((shown.behind _).before _).before _).before _

theorem span (class_ : String) (shown : Shows t a s) :
    Shows t a fun n => t.flavor.span class_ (s n) := by
  cases t with
  | html =>
    simp only [Target.flavor, Html.flavor, Html.span, String.join_cons, String.join_nil]
    exact (((shown.before _).behind _).behind _).behind _
  | quarto => exact ((shown.behind _).before _).before _

theorem captionOpen (anchor : String) (shown : Shows t a s) :
    Shows t a fun n => t.flavor.captionOpen anchor (s n) := by
  obtain ⟨rfl, text, rfl⟩ | solid := shown.plain_or_solid
  · exact .plain (t.flavor.captionOpen anchor text)
  have some_ (n : Nat) : (s n).isEmpty = false := by
    have kept := solid n
    cases empty : (s n).isEmpty with
    | false => rfl
    | true =>
      rw [String.isEmpty_iff.mp empty] at kept
      cases kept
  cases t with
  | html =>
    simp only [Target.flavor, Html.flavor, Html.captionOpen, some_]
    exact ((shown.behind _).before _).behind _
  | quarto =>
    simp only [Target.flavor, Quarto.flavor, Quarto.captionOpen, some_]
    exact ((shown.behind _).before _).behind _

theorem itemOpen (kind : ListKind) (title : Option (Numbered String)) (nesting : Nat)
    (shown : ShowsAll t a title.toList) :
    Shows t a fun n => t.flavor.itemOpen kind (title.map (· n)) nesting := by
  cases title with
  | none =>
    cases shown
    exact .plain (t.flavor.itemOpen kind none nesting)
  | some title =>
    have title_ := shown.of_single
    cases t with
    | html => cases kind <;> exact (title_.behind _).before _
    | quarto => exact (((title_.behind _).before _).before _).behind _

/-- The notes at the end of a chapter show the markers in them. -/
theorem footnotes {notes : List (Numbered String)} (shown : ShowsAll t a notes) :
    Shows t a fun n => t.flavor.footnotes (notes.map (· n)) := by
  cases t with
  | html =>
    simp only [Target.flavor, Html.flavor, Html.footnotes, String.join_cons, String.join_nil]
    refine ((shown.join fun i b text note => ?_).before _).behind _
    simp only [Html.footnote, String.join_cons, String.join_nil]
    exact (((note.before _).behind _).behind _).behind _
  | quarto =>
    refine (shown.join fun i b text note => ?_).behind _
    exact (note.onOneLine.behind _).before _

end Shows

namespace Example

/-- Shown as text, below its caption. -/
def Body.isText : Body → Bool
  | .code _ | .text _ => true
  | .image _ | .html _ => false

structure Tile where
  caption : Option (Numbered String)
  lang : Option Lang
  body : Body

def Tile.cell (tile : Tile) (n : Nat) : Cell := ⟨tile.caption.map (· n), tile.lang, tile.body⟩

def captions (row : List Tile) : List (Numbered String) := row.flatMap (·.caption.toList)

/-- Columns are made equally long by their code alone. -/
theorem level_tiles (row : List Tile) : ∃ row' : List Tile,
    (∀ n, level (row.map (·.cell n)) = row'.map (·.cell n)) ∧ captions row' = captions row ∧
      ((∀ tile ∈ row, tile.body.isText = true) → ∀ tile ∈ row', tile.body.isText = true) := by
  by_cases two : ∃ caption lang a caption' lang' b,
      row = [⟨caption, lang, .code a⟩, ⟨caption', lang', .code b⟩]
  · obtain ⟨caption, lang, a, caption', lang', b, rfl⟩ := two
    exact ⟨[⟨caption, lang, .code (padTo (max a.length b.length) a)⟩,
      ⟨caption', lang', .code (padTo (max a.length b.length) b)⟩], fun n => rfl, rfl,
      fun _ => by simp [Body.isText]⟩
  · refine ⟨row, fun n => ?_, rfl, id⟩
    unfold level
    split
    next leftCaption leftLang a rightCaption rightLang b same =>
      obtain ⟨left, right, rfl⟩ := List.length_eq_two.mp (by simpa using congrArg List.length same)
      obtain ⟨caption, lang, body⟩ := left
      obtain ⟨caption', lang', body'⟩ := right
      simp only [List.map_cons, List.map_nil, Tile.cell, List.cons.injEq, Cell.mk.injEq] at same
      obtain ⟨⟨-, -, rfl⟩, ⟨-, -, rfl⟩, -⟩ := same
      exact absurd ⟨_, _, _, _, _, _, rfl⟩ two
    next => rfl

end Example

namespace Shows

open Example

variable {t : Target} {a : List Nat}

theorem htmlCaption {caption : Option (Numbered String)} (shown : ShowsAll t a caption.toList) :
    Shows t a fun n => Html.caption (caption.map (· n)) := by
  cases caption with
  | none =>
    cases shown
    exact .plain _
  | some caption =>
    simp only [Option.map_some, Html.caption, String.join_cons, String.join_nil]
    exact (shown.of_single.before _).behind _

theorem htmlCell {tile : Tile} (text : tile.body.isText = true)
    (shown : ShowsAll t a tile.caption.toList) : Shows t a fun n => Html.cell (tile.cell n) := by
  obtain ⟨caption, lang, body⟩ := tile
  cases body with
  | code | text => exact ((((htmlCaption shown).behind _).before _).before _).before _
  | image | html => cases text

/-- In a row of its own a cell stands below its caption. -/
theorem quartoSingle {tile : Tile} (shown : ShowsAll t a tile.caption.toList) :
    Shows t a fun n => (match (tile.cell n).caption with
      | some caption => "\n**" ++ caption ++ "**\n"
      | none => "") ++ Quarto.cell (tile.cell n) := by
  have cell_eq (n : Nat) : Quarto.cell (tile.cell n) = Quarto.cell (tile.cell 0) := rfl
  simp only [cell_eq]
  refine before ?_ _
  obtain ⟨_ | caption, lang, body⟩ := tile
  · cases shown
    exact .plain ""
  · exact (shown.of_single.behind _).before _

/-- Beside another a cell stands on a tab of its own. -/
theorem quartoTab {tile : Tile} (shown : ShowsAll t a tile.caption.toList) :
    Shows t a fun n => "\n## " ++ (tile.cell n).caption.getD "" ++ "\n" ++
      Quarto.cell (tile.cell n) := by
  have cell_eq (n : Nat) : Quarto.cell (tile.cell n) = Quarto.cell (tile.cell 0) := rfl
  simp only [cell_eq]
  refine before (before (behind _ ?_) _) _
  obtain ⟨_ | caption, lang, body⟩ := tile
  · cases shown
    exact .plain ""
  · exact shown.of_single

theorem cells {write : Cell → String} {row : List Tile}
    (each : ∀ tile ∈ row, ∀ a, ShowsAll t a tile.caption.toList →
      Shows t a fun n => write (tile.cell n))
    (shown : ShowsAll t a (captions row)) :
    Shows t a fun n => String.join ((row.map (·.cell n)).map write) := by
  induction row generalizing a with
  | nil =>
    cases shown
    exact .plain (String.join [])
  | cons tile row ih =>
    obtain ⟨b, c, rfl, first, others⟩ := shown.of_append
    refine ((each tile (by simp) b first).append
      (ih (fun tile member => each tile (by simp [member])) others)).congr fun n => ?_
    rw [List.map_cons, List.map_cons, String.join_cons]

/-- A row of code and text shows its captions. -/
theorem example_ {row : List Tile} (text : ∀ tile ∈ row, tile.body.isText = true)
    (shown : ShowsAll t a (captions row)) :
    Shows t a fun n => t.flavor.example_ (addRow [] (row.map (·.cell n))) := by
  by_cases empty : row = []
  · subst empty
    cases shown
    exact .plain (t.flavor.example_ (addRow [] []))
  obtain ⟨row', level_eq, captions_eq, text'⟩ := level_tiles row
  have added (n : Nat) : addRow [] (row.map (·.cell n)) = [row'.map (·.cell n)] := by
    simp [addRow, level_eq, empty]
  rw [← captions_eq] at shown
  simp only [added]
  cases t with
  | html =>
    have cells_ := cells (fun tile member b => htmlCell (text' text tile member)) shown
    have row_ : Shows .html a fun n => Html.row (row'.map (·.cell n)) := by
      simp only [Html.row, List.length_map, String.join_cons, String.join_nil]
      exact (((cells_.before _).behind _).behind _).behind _
    simpa [Target.flavor, Html.flavor] using row_
  | quarto =>
    have row_ : Shows .quarto a fun n => Quarto.row (row'.map (·.cell n)) := by
      simp only [Quarto.row, List.length_map]
      split
      · exact ((cells (fun tile _ b => quartoTab) shown).behind _).before _
      · exact cells (fun tile _ b => quartoSingle) shown
    simpa [Target.flavor, Quarto.flavor] using row_

end Shows

end Quire
