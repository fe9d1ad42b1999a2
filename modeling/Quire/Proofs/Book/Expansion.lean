import Mathlib.Data.List.Infix
import Quire.Book.Include

/-! Which includes of a source give way to their files. On each line that is the first one, unless
a percent sign stands in front of it; a second include of a line stays as it is, and so does one
behind an escaped percent sign. Main statement: an expansion puts the expanded files in place of
those includes, and where the lines have no others outside of their comments, none is left. -/
namespace Quire.Include

inductive Mode
  | clear
  /-- Behind a backslash. -/
  | escaped
  | comment
deriving DecidableEq, Repr

def Mode.step : Mode → Char → Mode
  | .clear, c => if c = '\\' then .escaped else if c = '%' then .comment else .clear
  | .escaped, _ => .clear
  | .comment, c => if c = '\n' then .clear else .comment

def Mode.behind (mode : Mode) (cs : List Char) : Mode := cs.foldl Mode.step mode

def opens (cs : List Char) : Bool := openings.any (·.isPrefixOf cs)

/-- Outside of its comments a text includes nothing. -/
def isQuiet : Mode → List Char → Bool
  | _, [] => true
  | mode, c :: cs => (mode == .comment || !opens (c :: cs)) && isQuiet (mode.step c) cs

/-- No include can begin in a text and end behind it. -/
def isUnbegun (cs : List Char) : Bool :=
  cs.tails.all fun part => part.isEmpty || !openings.any (part.isPrefixOf ·)

def isSettled (cs : List Char) : Bool := Mode.clear.behind cs == .clear && isUnbegun cs

/-- A line and the lines behind it: it goes to its line feed, or to the end. -/
inductive EndsLine : List Char → List Char → Prop
  | last : EndsLine [] []
  | lineFeed {rest : List Char} : EndsLine ['\n'] rest
  | cons {c : Char} {content rest : List Char} (other : c ≠ '\n') (ends : EndsLine content rest) :
      EndsLine (c :: content) rest

def Includes (name more cs : List Char) : Prop :=
  name ≠ [] ∧ '\x7d' ∉ name ∧ ∃ opening ∈ openings, cs = opening ++ (name ++ '\x7d' :: more)

/-- In front of `more`, no include starts in a part of a line, unless a percent sign stands in front
of it. -/
def Bare (part more : List Char) : Prop :=
  ∀ front behind, part = front ++ behind → behind ≠ [] → '%' ∉ front →
    ∀ name rest, ¬ Includes name rest (behind ++ more)

/-- A line with an include has no other one outside of its comments, and the included text stands
in it as it would between two lines. -/
structure Seamless (front body back : List Char) : Prop where
  front : isQuiet .clear front = true ∧ isSettled front = true
  body : isSettled body = true
  back : isQuiet .clear back = true

/-- A source and the text that stands for it once the first include of each line, if no percent sign
stands in front of it, has given way to the text that stands for its file. Files include one another
down to `depth`. When it is `strict`, the lines have no further includes outside of their
comments. -/
inductive Expands (disk : Disk) (base : String) (strict : Prop) :
    Nat → List Char → List Char → Prop
  | nil {depth : Nat} : Expands disk base strict depth [] []
  | plain {depth : Nat} {line rest out : List Char} (some : line ≠ []) (ends : EndsLine line rest)
      (bare : Bare line rest) (quiet : strict → isQuiet .clear line = true)
      (behind : Expands disk base strict depth rest out) :
      Expands disk base strict depth (line ++ rest) (line ++ out)
  | file {depth : Nat} {front name command back rest body out : List Char} {source : String}
      (one : '\n' ∉ front) (clear : '%' ∉ front) (bare : Bare front command)
      (includes : Includes name (back ++ rest) command) (ends : EndsLine back rest)
      (found : disk.readText (path base name) = .ok source)
      (inner : Expands disk base strict depth source.toList body)
      (seamless : strict → Seamless front body back)
      (behind : Expands disk base strict (depth + 1) rest out) :
      Expands disk base strict (depth + 1) (front ++ command) (front ++ (body ++ (back ++ out)))

/-! The include of a line. -/

theorem isPrefixOf?_append_self (opening cs : List Char) :
    opening.isPrefixOf? (opening ++ cs) = some cs := by
  induction opening with
  | nil => rfl
  | cons c opening ih => simp [List.isPrefixOf?, ih]

theorem eq_append_of_isPrefixOf? {opening cs rest : List Char}
    (starts : opening.isPrefixOf? cs = some rest) : cs = opening ++ rest := by
  induction opening generalizing cs with
  | nil => exact Option.some.inj starts
  | cons c opening ih =>
    cases cs with
    | nil => cases starts
    | cons d cs =>
      change (if c == d then opening.isPrefixOf? cs else none) = some rest at starts
      split at starts
      next same => rw [← eq_of_beq same, ih starts, List.cons_append]
      next => cases starts

/-- No text starts with two of the commands. -/
theorem opening_eq {opening opening' cs cs' : List Char} (command : opening ∈ openings)
    (command' : opening' ∈ openings) (same : opening ++ cs = opening' ++ cs') :
    opening = opening' := by
  simp only [openings, List.mem_cons, List.not_mem_nil, or_false] at command command'
  obtain rfl | rfl := command <;> obtain rfl | rfl := command' <;> first | rfl | simp at same

theorem findSome?_opening {opening : List Char} (command : opening ∈ openings) (cs : List Char) :
    openings.findSome? (·.isPrefixOf? (opening ++ cs)) = some cs := by
  obtain ⟨rest, found⟩ : ∃ rest, openings.findSome? (·.isPrefixOf? (opening ++ cs)) = some rest :=
    Option.isSome_iff_exists.mp <| List.findSome?_isSome_iff.mpr
      ⟨opening, command, by rw [isPrefixOf?_append_self]; rfl⟩
  obtain ⟨opening', command', starts⟩ := List.exists_of_findSome?_eq_some found
  have split := eq_append_of_isPrefixOf? starts
  obtain rfl := opening_eq command command' split
  rw [found, ← List.append_cancel_left split]

theorem before?_brace {name : List Char} (named : '\x7d' ∉ name) (more : List Char) :
    Text.before? ['\x7d'] (name ++ '\x7d' :: more) = some name := by
  induction name with
  | nil => simp [Text.before?]
  | cons c name ih =>
    obtain ⟨other, named⟩ := not_or.mp (mt List.mem_cons.mpr named)
    simp [Text.before?, other, ih named]

theorem brace_not_mem {cs name : List Char} (found : Text.before? ['\x7d'] cs = some name) :
    '\x7d' ∉ name ∧ ∃ more, cs = name ++ '\x7d' :: more := by
  induction cs generalizing name with
  | nil => simp [Text.before?] at found
  | cons c cs ih =>
    simp only [Text.before?] at found
    split at found
    next brace =>
      obtain rfl := Option.some.inj found
      obtain ⟨more, eq⟩ := List.isPrefixOf_iff_prefix.mp brace
      exact ⟨List.not_mem_nil, more, eq.symm⟩
    next other =>
      obtain ⟨name', found', rfl⟩ := Option.map_eq_some_iff.mp found
      obtain ⟨named, more, rfl⟩ := ih found'
      refine ⟨fun bad => ?_, more, rfl⟩
      obtain rfl | bad := List.mem_cons.mp bad
      · simp at other
      · exact named bad

theorem name?_eq_some_iff {cs name more : List Char} :
    name? cs = some (name, more) ↔ Includes name more cs := by
  constructor
  · intro found
    obtain ⟨rest, opened, cut⟩ := Option.bind_eq_some_iff.mp found
    clear found
    obtain ⟨opening, command, starts⟩ := List.exists_of_findSome?_eq_some opened
    obtain rfl := eq_append_of_isPrefixOf? starts
    split at cut
    next name' more' found =>
      split at cut
      · cases cut
      next some =>
        obtain ⟨rfl, rfl⟩ := Prod.mk.inj (Option.some.inj cut)
        obtain ⟨before, first, pair⟩ := Option.map_eq_some_iff.mp found
        obtain ⟨rfl, rfl⟩ := Prod.mk.inj pair
        obtain ⟨named, more, rfl⟩ := brace_not_mem first
        refine ⟨fun none => some (by rw [none]; rfl), named, opening, command, ?_⟩
        simp
    next => cases cut
  · rintro ⟨some, named, opening, command, rfl⟩
    refine Option.bind_eq_some_iff.mpr ⟨_, findSome?_opening command _, ?_⟩
    simp [Text.splitOnce?, before?_brace named, some]

theorem name?_eq_none {cs : List Char} (none : ∀ name rest, ¬ Includes name rest cs) :
    name? cs = .none :=
  Option.eq_none_iff_forall_ne_some.mpr fun (name, rest) found =>
    none name rest (name?_eq_some_iff.mp found)

theorem Bare.tail {c : Char} {part more : List Char} (bare : Bare (c :: part) more)
    (clear : c ≠ '%') : Bare part more := by
  rintro front behind rfl some none
  refine bare (c :: front) behind rfl some fun bad => ?_
  obtain same | bad := List.mem_cons.mp bad
  · exact clear same.symm
  · exact none bad

theorem Bare.name? {c : Char} {part more : List Char} (bare : Bare (c :: part) more) :
    name? (c :: (part ++ more)) = none :=
  name?_eq_none (bare [] (c :: part) rfl (List.cons_ne_nil _ _) List.not_mem_nil)

theorem find?_line {content rest : List Char} (ends : EndsLine content rest)
    (bare : Bare content rest) : find? (content ++ rest) = none := by
  induction ends with
  | last => rfl
  | lineFeed => rw [List.cons_append, find?, bare.name?]; rfl
  | @cons c _ _ other ends ih =>
    rw [List.cons_append, find?, bare.name?]
    by_cases percent : c = '%'
    · exact if_pos (.inl percent)
    · simp [percent, other, ih (bare.tail percent)]

theorem find?_include {front name command more : List Char} (one : '\n' ∉ front)
    (clear : '%' ∉ front) (bare : Bare front command) (includes : Includes name more command) :
    find? (front ++ command) = some (front, name, more) := by
  induction front with
  | nil =>
    have named := name?_eq_some_iff.mpr includes
    cases command with
    | nil => cases named
    | cons c command => simp only [List.nil_append, find?, named]
  | cons c front ih =>
    obtain ⟨lineFeed, one⟩ := not_or.mp (mt List.mem_cons.mpr one)
    obtain ⟨percent, clear⟩ := not_or.mp (mt List.mem_cons.mpr clear)
    simp [find?, bare.name?, Ne.symm percent, Ne.symm lineFeed,
      ih one clear (bare.tail (Ne.symm percent))]

theorem line_append {content rest : List Char} (ends : EndsLine content rest) :
    line (content ++ rest) = (content, rest) := by
  induction ends with
  | last => rfl
  | lineFeed => rfl
  | cons other _ ih => simp [line, other, ih]

/-! The pieces of a source. -/

theorem pieces_nil (start : Bool) : pieces start [] = [] := by
  rw [pieces]

theorem pieces_text {start : Bool} {content rest : List Char} (some : content ≠ [])
    (ends : EndsLine content rest) (none : start = true → find? (content ++ rest) = .none) :
    pieces start (content ++ rest) = .text content :: pieces true rest := by
  obtain ⟨c, content, rfl⟩ := List.exists_cons_of_ne_nil some
  rw [List.cons_append, pieces]
  split
  next found =>
    cases start with
    | false => cases found
    | true => rw [if_pos rfl, ← List.cons_append, none rfl] at found; cases found
  next =>
    rw [← List.cons_append]
    simp only [line_append ends]

theorem pieces_include {cs front name more : List Char}
    (found : find? cs = some (front, name, more)) :
    pieces true cs = .text front :: .file name :: pieces false more := by
  cases cs with
  | nil => cases found
  | cons c cs =>
    rw [pieces]
    split
    next found' =>
      rw [if_pos rfl, found] at found'
      cases found'
      rfl
    next none =>
      rw [if_pos rfl, found] at none
      cases none

/-! What an expansion puts in their place. -/

/-- The text that stands for a piece of a source. -/
def Piece.expanded (disk : Disk) (base : String) (depth : Nat) : Piece → Except Fault String
  | .text content => .ok (.ofList content)
  | .file name => expand disk base depth (path base name)

theorem expand_zero {disk : Disk} {base file source : String}
    (found : disk.readText file = .ok source) : expand disk base 0 file = .ok source := by
  rw [expand, found]

theorem expand_succ {disk : Disk} {base file source : String} {depth : Nat}
    (found : disk.readText file = .ok source) :
    expand disk base (depth + 1) file =
      String.join <$> (pieces true source.toList).mapM (Piece.expanded disk base depth) := by
  rw [expand, found]
  congr

def Reads (disk : Disk) (base : String) (depth : Nat) (all : List Piece) (out : List Char) : Prop :=
  String.join <$> all.mapM (Piece.expanded disk base depth) = .ok (.ofList out)

theorem reads_nil {disk : Disk} {base : String} {depth : Nat} : Reads disk base depth [] [] := rfl

theorem Reads.cons {disk : Disk} {base : String} {depth : Nat} {piece : Piece} {all : List Piece}
    {first out : List Char} (head : piece.expanded disk base depth = .ok (.ofList first))
    (tail : Reads disk base depth all out) :
    Reads disk base depth (piece :: all) (first ++ out) := by
  unfold Reads at tail ⊢
  rw [List.mapM_cons, head]
  cases texts : all.mapM (Piece.expanded disk base depth) with
  | error e => rw [texts] at tail; cases tail
  | ok texts' =>
    rw [texts] at tail
    have joined : String.join texts' = .ofList out := Except.ok.inj tail
    change Except.ok (String.join (.ofList first :: texts')) = _
    rw [String.join_cons, joined, String.ofList_append]

theorem Reads.line {disk : Disk} {base : String} {depth : Nat} {content rest out : List Char}
    (ends : EndsLine content rest) (tail : Reads disk base depth (pieces true rest) out) :
    Reads disk base depth (pieces false (content ++ rest)) (content ++ out) := by
  by_cases none : content = []
  · subst none
    cases ends
    simpa [pieces_nil] using tail
  · rw [pieces_text none ends fun bad => Bool.noConfusion bad]
    exact .cons rfl tail

/-- The pieces of a source read as the text that stands for it, and so does the source itself when
it includes no file. -/
theorem Expands.reads {disk : Disk} {base : String} {strict : Prop} {depth : Nat}
    {cs out : List Char} (expands : Expands disk base strict depth cs out) :
    (depth = 0 → out = cs) ∧
      ∀ more, depth ≤ more + 1 → Reads disk base more (pieces true cs) out := by
  induction expands with
  | nil => exact ⟨fun _ => rfl, fun _ _ => by rw [pieces_nil]; exact reads_nil⟩
  | plain some ends bare _ _ ih =>
    refine ⟨fun none => by rw [ih.1 none], fun more within => ?_⟩
    rw [pieces_text some ends fun _ => find?_line ends bare]
    exact .cons rfl (ih.2 more within)
  | file one clear bare includes ends found _ _ _ inner behind =>
    refine ⟨nofun, fun more within => ?_⟩
    rw [pieces_include (find?_include one clear bare includes)]
    refine .cons rfl (.cons ?_ (.line ends (behind.2 more within)))
    cases more with
    | zero =>
      obtain rfl : _ = 0 := Nat.le_zero.mp (Nat.le_of_succ_le_succ within)
      rw [Piece.expanded, expand_zero found, inner.1 rfl, String.ofList_toList]
    | succ more =>
      rw [Piece.expanded, expand_succ found]
      exact inner.2 more (Nat.le_of_succ_le_succ within)

/-! Texts without includes. -/

theorem opens_eq_true_iff {cs : List Char} :
    opens cs = true ↔ ∃ opening ∈ openings, opening <+: cs := by
  simp [opens, List.isPrefixOf_iff_prefix]

/-- A text is quiet when an include stands nowhere in it but in comments. -/
theorem isQuiet_iff {mode : Mode} {cs : List Char} :
    isQuiet mode cs = true ↔
      ∀ front behind, cs = front ++ behind → mode.behind front ≠ .comment →
        opens behind = false := by
  induction cs generalizing mode with
  | nil =>
    refine ⟨fun _ front behind eq _ => ?_, fun _ => rfl⟩
    obtain ⟨-, rfl⟩ := List.append_eq_nil_iff.mp eq.symm
    rfl
  | cons c cs ih =>
    simp only [isQuiet, Bool.and_eq_true, Bool.or_eq_true, beq_iff_eq, Bool.not_eq_true', ih]
    constructor
    · rintro ⟨here, later⟩ front behind eq live
      cases front with
      | nil =>
        obtain rfl : c :: cs = behind := eq
        exact here.resolve_left live
      | cons d front =>
        obtain ⟨rfl, rfl⟩ := List.cons.inj eq
        exact later front behind rfl live
    · intro all
      refine ⟨?_, fun front behind eq live => ?_⟩
      · by_cases live : mode = .comment
        · exact .inl live
        · exact .inr (all [] _ rfl live)
      · exact all (c :: front) behind (by rw [eq]; rfl) live

theorem isUnbegun_iff {cs : List Char} :
    isUnbegun cs = true ↔
      ∀ part, part <:+ cs → part ≠ [] → ∀ opening ∈ openings, ¬ part <+: opening := by
  simp [isUnbegun, List.mem_tails, or_iff_not_imp_left]

theorem opens_append {cs : List Char} (some : cs ≠ []) (unbegun : isUnbegun cs = true)
    (more : List Char) : opens (cs ++ more) = opens cs := by
  refine Bool.eq_iff_iff.mpr ?_
  simp only [opens_eq_true_iff]
  refine exists_congr fun opening => and_congr_right fun command => ⟨fun starts => ?_, fun starts =>
    starts.trans (List.prefix_append _ _)⟩
  refine (List.prefix_or_prefix_of_prefix starts (List.prefix_append cs more)).resolve_right ?_
  exact isUnbegun_iff.mp unbegun cs (List.suffix_refl cs) some opening command

theorem isQuiet_append {cs : List Char} (mode : Mode) (unbegun : isUnbegun cs = true)
    (more : List Char) :
    isQuiet mode (cs ++ more) = (isQuiet mode cs && isQuiet (mode.behind cs) more) := by
  induction cs generalizing mode with
  | nil => simp [isQuiet, Mode.behind]
  | cons c cs ih =>
    have later : isUnbegun cs = true := isUnbegun_iff.mpr fun part suffix =>
      isUnbegun_iff.mp unbegun part (suffix.trans (List.suffix_cons c cs))
    have here := opens_append (List.cons_ne_nil c cs) unbegun more
    rw [List.cons_append] at here ⊢
    simp only [isQuiet, here, ih _ later, Bool.and_assoc]
    rfl

theorem isQuiet_settled {cs more : List Char} (quiet : isQuiet .clear cs = true)
    (settled : isSettled cs = true) (quiet' : isQuiet .clear more = true) :
    isQuiet .clear (cs ++ more) = true := by
  obtain ⟨clear, unbegun⟩ := Bool.and_eq_true_iff.mp settled
  rw [isQuiet_append _ unbegun, eq_of_beq clear, quiet, quiet', Bool.and_true]

theorem lineFeed_not_mem_opening {opening : List Char} (command : opening ∈ openings) :
    '\n' ∉ opening := by
  revert opening
  decide

theorem isSettled_lineFeed (content : List Char) : isSettled (content ++ ['\n']) = true := by
  refine Bool.and_eq_true_iff.mpr ⟨?_, isUnbegun_iff.mpr fun part suffix some opening command
    starts => ?_⟩
  · simp only [Mode.behind, List.foldl_append, List.foldl_cons, List.foldl_nil]
    cases List.foldl Mode.step .clear content <;> rfl
  · have last : '\n' ∈ part := by
      obtain none | ⟨front, rfl, -⟩ := List.suffix_concat_iff.mp suffix
      · exact absurd none some
      · simp
    exact lineFeed_not_mem_opening command (starts.subset last)

theorem EndsLine.settled {content rest : List Char} (ends : EndsLine content rest) :
    rest = [] ∨ isSettled content = true := by
  have split : rest = [] ∨ ∃ front, content = front ++ ['\n'] := by
    induction ends with
    | last => exact .inl rfl
    | lineFeed => exact .inr ⟨[], rfl⟩
    | @cons c _ _ _ _ ih => exact ih.imp_right fun ⟨front, eq⟩ => ⟨c :: front, by rw [eq]; rfl⟩
  refine split.imp_right ?_
  rintro ⟨front, rfl⟩
  exact isSettled_lineFeed front

theorem Expands.eq_nil {disk : Disk} {base : String} {strict : Prop} {depth : Nat}
    {out : List Char} (expands : Expands disk base strict depth [] out) : out = [] := by
  generalize eq : ([] : List Char) = cs at expands
  cases expands with
  | nil => rfl
  | plain some => exact absurd (List.append_eq_nil_iff.mp eq.symm).1 some
  | file _ _ _ includes =>
    obtain ⟨-, -, opening, -, rfl⟩ := includes
    simp at eq

/-- Behind a line, what the lines after it give is read as at the start of a line. -/
theorem isQuiet_line {disk : Disk} {base : String} {strict : Prop} {depth : Nat}
    {content rest out : List Char} (ends : EndsLine content rest)
    (expands : Expands disk base strict depth rest out) (quiet : isQuiet .clear content = true)
    (quiet' : isQuiet .clear out = true) : isQuiet .clear (content ++ out) = true := by
  obtain rfl | settled := ends.settled
  · rwa [expands.eq_nil, List.append_nil]
  · exact isQuiet_settled quiet settled quiet'

theorem Expands.quiet {disk : Disk} {base : String} {strict : Prop} {depth : Nat}
    {cs out : List Char} (expands : Expands disk base strict depth cs out) (holds : strict) :
    isQuiet .clear out = true := by
  induction expands with
  | nil => rfl
  | plain _ ends _ quiet behind ih => exact isQuiet_line ends behind (quiet holds) ih
  | file _ _ _ _ ends _ _ seamless behind inner later =>
    obtain ⟨⟨quiet, settled⟩, settled', quiet'⟩ := seamless holds
    exact isQuiet_settled quiet settled
      (isQuiet_settled inner settled' (isQuiet_line ends behind quiet' later))

/-- Where files include one another no deeper than `maxDepth` and all can be read, the text of a
file has the text of the included file in place of the first include of each line that no percent
sign stands in front of. Where the lines have no further includes outside of their comments, none
is left outside of comments. -/
theorem expand_of_expands {disk : Disk} {base file source : String} {strict : Prop} {depth : Nat}
    {out : List Char} (found : disk.readText file = .ok source)
    (expands : Expands disk base strict depth source.toList out) (within : depth ≤ maxDepth) :
    expand disk base maxDepth file = .ok (.ofList out) ∧
      (strict → ∀ front behind, out = front ++ behind → Mode.clear.behind front ≠ .comment →
        opens behind = false) := by
  refine ⟨?_, fun holds => isQuiet_iff.mp (expands.quiet holds)⟩
  rw [maxDepth, expand_succ found]
  exact expands.reads.2 15 within

theorem endsLine_of_not_mem {content : List Char} (one : '\n' ∉ content) (rest : List Char) :
    EndsLine (content ++ ['\n']) rest ∧ EndsLine content [] := by
  induction content with
  | nil => exact ⟨.lineFeed, .last⟩
  | cons c content ih =>
    obtain ⟨other, one⟩ := not_or.mp (mt List.mem_cons.mpr one)
    exact ⟨.cons (Ne.symm other) (ih one).1, .cons (Ne.symm other) (ih one).2⟩

theorem bare_of_not_mem {part : List Char} (none : '\\' ∉ part.takeWhile (· != '%'))
    (more : List Char) : Bare part more := by
  rintro front behind rfl some clear name rest ⟨-, -, opening, command, eq⟩
  obtain ⟨c, behind, rfl⟩ := List.exists_cons_of_ne_nil some
  obtain rfl : c = '\\' := by
    simp only [openings, List.mem_cons, List.not_mem_nil, or_false] at command
    obtain rfl | rfl := command <;> exact (List.cons.inj eq).1
  have kept : ∀ c ∈ front, (c != '%') = true := fun c mem =>
    bne_iff_ne.mpr fun same => clear (same ▸ mem)
  rw [List.takeWhile_append_of_pos kept] at none
  exact none (List.mem_append_right _ List.mem_cons_self)

/-- A chapter, a file that it includes, and one that this file includes. -/
theorem expand_of_expands_of_nested :
    let disk : Disk := { Disk.empty with
      files := [(["ch.tex"], ⟨.text "A\n50 \\input\x7ba\x7d% \\input\x7bb\x7d\n", 0⟩),
        (["a.tex"], ⟨.text "B \\include\x7b d.sty \x7d C", 0⟩), (["d.sty"], ⟨.text "D\n", 0⟩)] }
    let out := "A\n50 B D\n C% \\input\x7bb\x7d\n".toList
    expand disk "" maxDepth "ch.tex" = .ok (.ofList out) ∧
      (∀ front behind, out = front ++ behind → Mode.clear.behind front ≠ .comment →
        opens behind = false) := by
  intro disk out
  have leaf : disk.readText (path "" " d.sty ".toList) = .ok "D\n" := by decide +kernel
  have child : disk.readText (path "" "a".toList) = .ok "B \\include\x7b d.sty \x7d C" := by
    decide +kernel
  have innermost : Expands disk "" True 0 (['D', '\n'] ++ []) (['D', '\n'] ++ []) :=
    .plain (by decide) (endsLine_of_not_mem (by decide : '\n' ∉ ['D']) []).1
      (bare_of_not_mem (by decide) _) (fun _ => by decide) .nil
  have inner : Expands disk "" True 1
      ("B ".toList ++ ("\\include\x7b".toList ++ (" d.sty ".toList ++ '\x7d' ::
        ([' ', 'C'] ++ []))))
      ("B ".toList ++ ("D\n".toList ++ ([' ', 'C'] ++ []))) :=
    .file (by decide) (by decide) (bare_of_not_mem (by decide) _)
      ⟨by decide, by decide, _, by decide, rfl⟩
      (endsLine_of_not_mem (by decide) []).2 leaf innermost
      (fun _ => ⟨by decide, by decide, by decide⟩) .nil
  have second : Expands disk "" True 2
      ("50 ".toList ++ ("\\input\x7b".toList ++ ("a".toList ++ '\x7d' ::
        ("% \\input\x7bb\x7d\n".toList ++ []))))
      ("50 ".toList ++ ("B D\n C".toList ++ ("% \\input\x7bb\x7d\n".toList ++ []))) :=
    .file (by decide) (by decide) (bare_of_not_mem (by decide) _)
      ⟨by decide, by decide, _, by decide, rfl⟩
      (endsLine_of_not_mem (by decide : '\n' ∉ "% \\input\x7bb\x7d".toList) []).1
      child inner (fun _ => ⟨by decide, by decide, by decide⟩) .nil
  have expands : Expands disk "" True 2 _ out :=
    .plain (by decide) (endsLine_of_not_mem (by decide : '\n' ∉ ['A']) _).1
      (bare_of_not_mem (by decide) _) (fun _ => by decide) second
  have chapter : disk.readText "ch.tex" = .ok "A\n50 \\input\x7ba\x7d% \\input\x7bb\x7d\n" := by
    decide +kernel
  have all := expand_of_expands chapter expands (by decide : 2 ≤ maxDepth)
  exact ⟨all.1, all.2 trivial⟩

/-- The second include of a line stays, and so does one behind an escaped percent sign. -/
theorem second_include_stays :
    let disk : Disk := { Disk.empty with
      files := [
        (["ch.tex"], ⟨.text "\\input\x7ba\x7d \\input\x7ba\x7d\n50\\% \\input\x7ba\x7d\n", 0⟩),
        (["a.tex"], ⟨.text "A", 0⟩)] }
    let out := "A \\input\x7ba\x7d\n50\\% \\input\x7ba\x7d\n"
    disk.readText (path "" ['a']) = .ok "A" ∧ expand disk "" maxDepth "ch.tex" = .ok out ∧
      ¬ ∀ front behind, out.toList = front ++ behind → Mode.clear.behind front ≠ .comment →
        opens behind = false := by
  intro disk out
  refine ⟨by decide +kernel, by decide +kernel, ?_⟩
  rw [← isQuiet_iff]
  decide +kernel

end Quire.Include
