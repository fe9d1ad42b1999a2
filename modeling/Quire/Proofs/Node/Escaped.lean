import Quire.Proofs.Node.Plain
import Quire.Proofs.Prose.Escaped

/-! How escaped text is read: as texts, with a command for each backslash. A bracket behind such a
command would be taken for its option. -/
namespace Quire.Node

open Prose (escape escapeChar symbols)
open Token (Cuts IsPiece)

inductive IsRun : List Char → List Node → Prop
  | nil : IsRun [] []
  | cons {part cs : List Char} {texts : List Node} (some_ : part ≠ []) (bare : '\\' ∉ part)
    (behind : IsRun cs texts) : IsRun (part ++ cs) (.text (.ofList (escape part)) :: texts)

def backslash : Node := .command "textbackslash" [.mk .required [] ""]

inductive Reads : List Char → List Node → Prop
  | last {part : List Char} {texts : List Node} (run : IsRun part texts) : Reads part texts
  | slash {part cs : List Char} {texts nodes : List Node} (run : IsRun part texts)
    (behind : Reads cs nodes) : Reads (part ++ '\\' :: cs) (texts ++ backslash :: nodes)

namespace Reads

variable {cs part : List Char} {nodes : List Node}

theorem text (some_ : part ≠ []) (bare : '\\' ∉ part) (behind : Reads cs nodes) :
    Reads (part ++ cs) (.text (.ofList (escape part)) :: nodes) := by
  cases behind with
  | last run => exact .last (.cons some_ bare run)
  | slash run behind =>
    rw [← List.append_assoc]
    exact .slash (.cons some_ bare run) behind

theorem backslash (behind : Reads cs nodes) : Reads ('\\' :: cs) (Node.backslash :: nodes) :=
  .slash .nil behind

end Reads

/-- Characters that end a run of text, as they are or by what is written for them. -/
def stops : List Char := '\\' :: '[' :: ']' :: symbols

def isOrdinary (c : Char) : Bool := decide (c ∉ stops)

theorem of_isOrdinary {c : Char} (ordinary : isOrdinary c = true) :
    c ≠ '\\' ∧ c ∉ symbols ∧ Token.isSpecial c = false := by
  have run : c ∉ stops := of_decide_eq_true ordinary
  have special : ['\\', '\x7b', '\x7d', '[', ']', '$', '%'].all stops.contains = true := by decide
  refine ⟨by rintro rfl; exact run (by decide), fun symbol => run (by simp [stops, symbol]), ?_⟩
  refine Bool.eq_false_iff.mpr fun is => run ?_
  refine List.contains_iff_mem.mp (List.all_eq_true.mp special c ?_)
  simpa [Token.isSpecial, or_assoc] using is

/-- What is written for a character that ends a run ends one. -/
theorem isSpecial_head?_escape {cs : List Char} (stop : ∀ c ∈ cs.head?, c ∈ stops) :
    ∀ d ∈ (escape cs).head?, Token.isSpecial d = true := by
  intro d first
  cases cs with
  | nil => cases first
  | cons c cs =>
    have each : ∃ ds, ∃ e, escapeChar c = e :: ds ∧ Token.isSpecial e = true := by
      by_cases symbol : c ∈ symbols
      · exact ⟨_, _, Prose.escapeChar_symbol symbol, rfl⟩
      · have one : c = '\\' ∨ c = '[' ∨ c = ']' := by simpa [stops, symbol] using stop c rfl
        rcases one with rfl | rfl | rfl <;> exact ⟨_, _, rfl, rfl⟩
    obtain ⟨es, e, spelled, special⟩ := each
    rw [Prose.escape_cons, spelled] at first
    obtain rfl : e = d := Option.some.inj first
    exact special

theorem next?_symbol {c : Char} (symbol : c ∈ symbols) (cs : List Char) :
    Token.next? '\\' (c :: cs) = some (.escape c, 1) ∧ Text.isBlank c = false := by
  have one : c ∈ ['\x7b', '\x7d', '&', '#', '%', '_', '$', '^'] := symbol
  simp only [List.mem_cons, List.not_mem_nil, or_false] at one
  rcases one with rfl | rfl | rfl | rfl | rfl | rfl | rfl | rfl <;> exact ⟨rfl, by decide⟩

/-- A run of ordinary characters, as long as possible, is a piece. -/
theorem exists_run {c : Char} (cs : List Char) (ordinary : isOrdinary c = true) :
    ∃ run rest, run ≠ [] ∧ '\\' ∉ run ∧ c :: cs = run ++ rest ∧ escape run = run ∧
      ∀ lexemes, Cuts (escape rest) lexemes →
        Cuts (escape (c :: cs)) (⟨.text (.ofList run), .ofList run, 0⟩ :: lexemes) := by
  have parts : c :: cs = (c :: cs).takeWhile isOrdinary ++ (c :: cs).dropWhile isOrdinary :=
    List.takeWhile_append_dropWhile.symm
  have inside : ∀ d ∈ (c :: cs).takeWhile isOrdinary, isOrdinary d = true :=
    fun d member => List.mem_takeWhile_imp member
  have stopped : ∀ d ∈ ((c :: cs).dropWhile isOrdinary).head?, d ∈ stops := by
    intro d first
    have stop := List.head?_dropWhile_not isOrdinary (c :: cs)
    rw [first] at stop
    simpa [isOrdinary] using stop
  have run_ne : (c :: cs).takeWhile isOrdinary ≠ [] := by simp [ordinary]
  generalize (c :: cs).takeWhile isOrdinary = run at *
  generalize (c :: cs).dropWhile isOrdinary = rest at *
  have same : escape run = run := Prose.escape_eq_self fun d member =>
    ⟨(of_isOrdinary (inside d member)).1, (of_isOrdinary (inside d member)).2.1⟩
  refine ⟨run, rest, run_ne, fun slash => (of_isOrdinary (inside _ slash)).1 rfl, parts, same,
    fun lexemes cuts => ?_⟩
  rw [parts, Prose.escape_append, same]
  exact Token.cuts_run run_ne (fun d member => (of_isOrdinary (inside d member)).2.2)
    (isSpecial_head?_escape stopped) cuts

/-- How escaped text starts that starts with no backslash. -/
theorem exists_piece {c : Char} (cs : List Char) (other : c ≠ '\\') :
    ∃ part rest l, part ≠ [] ∧ '\\' ∉ part ∧ c :: cs = part ++ rest ∧ IsPiece l ∧
      l.spelling = .ofList (escape part) ∧ (l.token = .openBracket → c = '[') ∧
      ∀ lexemes, Cuts (escape rest) lexemes → Cuts (escape (c :: cs)) (l :: lexemes) := by
  by_cases symbol : c ∈ symbols
  · have spelled := Prose.escapeChar_symbol symbol
    obtain ⟨found, visible⟩ := next?_symbol symbol (escape cs)
    refine ⟨[c], cs, ⟨.escape c, .ofList ['\\', c], 0⟩, by simp, by simpa using Ne.symm other, rfl,
      .escape c visible, by simp [escape, spelled], by simp, fun lexemes cuts => ?_⟩
    rw [Prose.escape_cons, spelled]
    exact Cuts.cons found rfl cuts
  by_cases opening : c = '['
  · subst opening
    refine ⟨['['], cs, ⟨.openBracket, "[", 0⟩, by simp, by simp, rfl, .openBracket, rfl,
      fun _ => rfl, fun lexemes cuts => ?_⟩
    exact @Cuts.cons '[' (escape cs) (escape cs) 0 .openBracket lexemes rfl rfl cuts
  by_cases closing : c = ']'
  · subst closing
    refine ⟨[']'], cs, ⟨.closeBracket, "]", 0⟩, by simp, by simp, rfl, .closeBracket, rfl,
      by simp, fun lexemes cuts => ?_⟩
    exact @Cuts.cons ']' (escape cs) (escape cs) 0 .closeBracket lexemes rfl rfl cuts
  have ordinary : isOrdinary c = true := by
    simp [isOrdinary, stops, other, opening, closing, symbol]
  obtain ⟨run, rest, run_ne, bare, parts, same, cuts⟩ := exists_run cs ordinary
  exact ⟨run, rest, _, run_ne, bare, parts, .text _, by rw [same], by simp, cuts⟩

/-- The lexemes of the command that shows a backslash. -/
def backslashLexemes : List Lexeme :=
  [⟨.command "textbackslash", "\\textbackslash", 0⟩, ⟨.openBrace, "\x7b", 0⟩,
    ⟨.closeBrace, "\x7d", 0⟩]

theorem cuts_backslash {cs : List Char} {lexemes : List Lexeme} (cuts : Cuts cs lexemes) :
    Cuts ("\\textbackslash\x7b\x7d".toList ++ cs) (backslashLexemes ++ lexemes) := by
  have closed : Cuts ('\x7d' :: cs) (⟨.closeBrace, "\x7d", 0⟩ :: lexemes) :=
    @Cuts.cons '\x7d' cs cs 0 .closeBrace lexemes rfl rfl cuts
  have opened : Cuts ('\x7b' :: '\x7d' :: cs) (⟨.openBrace, "\x7b", 0⟩ :: _) :=
    @Cuts.cons '\x7b' ('\x7d' :: cs) _ 0 .openBrace _ rfl rfl closed
  exact @Cuts.cons '\\' ("textbackslash".toList ++ '\x7b' :: '\x7d' :: cs) _ 13
    (.command "textbackslash") _ rfl rfl opened

namespace Builder

variable {b : Builder} {raw : String} {siblings : List Node}

/-- The command for a backslash stays open for an option. -/
theorem foldlM_backslash (settled : b.settle = ⟨raw, siblings, none, []⟩) :
    ∃ b' raw', backslashLexemes.foldlM step b = .ok b' ∧
      b'.settle = ⟨raw', backslash :: siblings, none, []⟩ := by
  have named : b.step ⟨.command "textbackslash", "\\textbackslash", 0⟩ =
      .ok ⟨raw ++ "\\textbackslash", siblings, some (.command "textbackslash" []), []⟩ := by
    simp only [step, settled, write]
  have ran : backslashLexemes.foldlM step b =
      .ok ⟨raw ++ "\\textbackslash" ++ (Arg.mk .required [] "").source, siblings,
        some (.command "textbackslash" [.mk .required [] ""]), []⟩ := by
    rw [backslashLexemes, List.foldlM_cons, named]
    rfl
  exact ⟨_, _, ran, rfl⟩

end Builder

/-- Escaped text in which no bracket follows a backslash is cut and read piece by piece. -/
theorem reads_escape {cs : List Char} (free : cs.IsChain fun a b => a = '\\' → b ≠ '[') :
    ∃ lexemes nodes, Cuts (escape cs) lexemes ∧ Reads cs nodes ∧
      ∀ (b : Builder) raw siblings, b.settle = ⟨raw, siblings, none, []⟩ →
        (cs.head? = some '[' → b.owner = none) →
        ∃ b' raw', lexemes.foldlM Builder.step b = .ok b' ∧
          b'.settle = ⟨raw', nodes.reverse ++ siblings, none, []⟩ := by
  induction size : cs.length using Nat.strong_induction_on generalizing cs with
  | _ n ih =>
    cases cs with
    | nil =>
      exact ⟨[], [], .nil, .last .nil, fun b raw siblings settled _ => ⟨b, raw, rfl, settled⟩⟩
    | cons c cs =>
      by_cases slash : c = '\\'
      · subst slash
        obtain ⟨starts, chain⟩ := List.isChain_cons.mp free
        obtain ⟨lexemes, nodes, cuts, reads, run⟩ := ih cs.length (by simp at size; omega) chain rfl
        refine ⟨backslashLexemes ++ lexemes, backslash :: nodes, cuts_backslash cuts,
          reads.backslash, fun b raw siblings settled _ => ?_⟩
        obtain ⟨b', raw', first, settled'⟩ := Builder.foldlM_backslash settled
        obtain ⟨b'', raw'', behind, done⟩ := run b' raw' _ settled' fun bracket =>
          absurd rfl (starts '[' bracket rfl)
        refine ⟨b'', raw'', ?_, by simpa using done⟩
        rw [List.foldlM_append, first]
        exact behind
      · obtain ⟨part, rest, l, part_ne, bare, parts, piece, spelled, bracket, cut⟩ :=
          exists_piece cs slash
        have shorter : rest.length < n := by
          have lengths := congrArg List.length parts
          have := List.length_pos_of_ne_nil part_ne
          rw [List.length_append, size] at lengths
          omega
        rw [parts] at free
        obtain ⟨lexemes, nodes, cuts, reads, run⟩ :=
          ih _ shorter (List.isChain_append.mp free).2.1 rfl
        refine ⟨l :: lexemes, .text l.spelling :: nodes, cut lexemes cuts, ?_,
          fun b raw siblings settled alone => ?_⟩
        · rw [parts, spelled]
          exact reads.text part_ne bare
        · have first := Builder.step_piece piece settled
            (fun opens => alone (by rw [bracket opens]; rfl)) nofun
          obtain ⟨b', raw', behind, done⟩ :=
            run ⟨raw ++ l.spelling, .text l.spelling :: siblings, none, []⟩ _ _ rfl fun _ => rfl
          refine ⟨b', raw', ?_, by simpa using done⟩
          rw [List.foldlM_cons, first]
          exact behind

theorem parse_escape {cs : List Char} (free : cs.IsChain fun a b => a = '\\' → b ≠ '[') :
    ∃ nodes, parse (.ofList (escape cs)) = .ok nodes ∧ Reads cs nodes := by
  obtain ⟨lexemes, nodes, cuts, reads, run⟩ := reads_escape free
  obtain ⟨placed, scanned, same⟩ := cuts 0
  obtain ⟨b, raw, read, settled⟩ := run .start "" [] rfl fun _ => rfl
  have built : build lexemes = .ok nodes := by
    have finished : b.finish = .ok nodes := by
      rw [Builder.finish, settled]
      simp
    rw [build, read]
    exact finished
  refine ⟨nodes, Builder.parse_of_lexemes ?_ same built, reads⟩
  rwa [Token.tokenize, String.toList_ofList]

end Quire.Node
