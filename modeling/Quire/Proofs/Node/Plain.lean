import Quire.Proofs.Node.Reparse
import Quire.Proofs.Token.Spelling

/-! Text without markup, inside an environment or alone. It is cut at brackets and at escaped
backslashes, and each piece is read as a text of its own spelling. -/
namespace Quire

namespace Token

def texChars : List Char := ['\\', '\x7b', '\x7d', '$', '%']

/-- Text of ordinary characters, brackets and escaped backslashes. -/
inductive Tame : List Char → Prop
  | nil : Tame []
  | ordinary {c : Char} {cs : List Char} (plain : c ∉ texChars) (rest : Tame cs) :
    Tame (c :: cs)
  | backslash {cs : List Char} (rest : Tame cs) : Tame ('\\' :: '\\' :: cs)

theorem Tame.of_plain {cs : List Char} (plain : ∀ c ∈ cs, c ∉ texChars) : Tame cs := by
  induction cs with
  | nil => exact .nil
  | cons c cs ih =>
    exact .ordinary (plain c (by simp)) (ih fun d member => plain d (List.mem_cons_of_mem c member))

theorem Tame.append {cs ds : List Char} (first : Tame cs) (second : Tame ds) : Tame (cs ++ ds) := by
  induction first with
  | nil => exact second
  | ordinary plain _ ih => exact .ordinary plain ih
  | backslash _ ih => exact .backslash ih

theorem Tame.dropRun {cs : List Char} (tame : Tame cs) : Tame (cs.dropWhile (!isSpecial ·)) := by
  induction tame with
  | nil => exact .nil
  | @ordinary c cs plain rest ih =>
    rw [List.dropWhile_cons]
    split
    · exact ih
    · exact .ordinary plain rest
  | backslash rest => exact .backslash rest

inductive IsPiece : Lexeme → Prop
  | text (content : String) : IsPiece ⟨.text content, content, 0⟩
  | escape (symbol : Char) (visible : Text.isBlank symbol = false) :
    IsPiece ⟨.escape symbol, .ofList ['\\', symbol], 0⟩
  | openBracket : IsPiece ⟨.openBracket, "[", 0⟩
  | closeBracket : IsPiece ⟨.closeBracket, "]", 0⟩

/-- The lexemes of a text, wherever it stands. -/
def Cuts (cs : List Char) (lexemes : List Lexeme) : Prop :=
  ∀ offset, ∃ lexemes', scan offset cs = .ok lexemes' ∧
    lexemes'.map Lexeme.unplaced = lexemes.map Lexeme.unplaced

theorem Cuts.nil : Cuts [] [] := fun _ => ⟨[], by rw [scan], rfl⟩

theorem Cuts.cons {c : Char} {rest behind : List Char} {n : Nat} {token : Token}
    {lexemes : List Lexeme} (found : next? c rest = some (token, n)) (eq : rest.drop n = behind)
    (cuts : Cuts behind lexemes) :
    Cuts (c :: rest) (⟨token, .ofList (c :: rest.take n), 0⟩ :: lexemes) :=
  fun offset => scan_of_next? found offset eq cuts

theorem next?_backslash (cs : List Char) : next? '\\' ('\\' :: cs) = some (.escape '\\', 1) := by
  rfl

def CutsInPieces (cs tail : List Char) (lexemes : List Lexeme) : Prop :=
  ∃ pieces, (∀ l ∈ pieces, IsPiece l) ∧ pieces.flatMap (·.spelling.toList) = cs ∧
    Cuts (cs ++ tail) (pieces ++ lexemes)

theorem CutsInPieces.cons {c : Char} {cs tail : List Char} {token : Token}
    {lexemes : List Lexeme} (run : List Char)
    (found : next? c (run ++ (cs ++ tail)) = some (token, run.length))
    (piece : IsPiece ⟨token, .ofList (c :: run), 0⟩) (behind : CutsInPieces cs tail lexemes) :
    CutsInPieces (c :: (run ++ cs)) tail lexemes := by
  obtain ⟨pieces, all, spelled, cuts⟩ := behind
  refine ⟨⟨token, .ofList (c :: run), 0⟩ :: pieces, ?_, by simp [spelled], ?_⟩
  · intro l member
    rcases List.mem_cons.mp member with rfl | behind
    · exact piece
    · exact all l behind
  · have first := Cuts.cons found (List.drop_left' rfl) cuts
    rw [List.take_left' rfl] at first
    simpa using first

/-- Tame text is cut into pieces, at the end of a source or in front of a character that ends a
text. -/
theorem cutsInPieces_tame {cs tail : List Char} {lexemes : List Lexeme} (tame : Tame cs)
    (stop : ∀ d ∈ tail.head?, isSpecial d = true) (cuts : Cuts tail lexemes) :
    CutsInPieces cs tail lexemes := by
  induction size : cs.length using Nat.strong_induction_on generalizing cs with
  | _ size ih =>
    cases tame with
    | nil => exact ⟨[], by simp, rfl, cuts⟩
    | @backslash cs tame =>
      have behind := ih cs.length (by simp at size; omega) tame rfl
      exact CutsInPieces.cons ['\\'] (next?_backslash _) (.escape '\\' (by decide +kernel)) behind
    | @ordinary c cs plain tame =>
      have behind := ih cs.length (by simp at size; omega) tame rfl
      by_cases opening : c = '['
      · subst opening
        exact CutsInPieces.cons [] rfl .openBracket behind
      by_cases closing : c = ']'
      · subst closing
        exact CutsInPieces.cons [] rfl .closeBracket behind
      have special : isSpecial c = false := by simp_all [isSpecial, texChars]
      have run := next?_text special (cs ++ tail)
      have ends : (cs ++ tail).takeWhile (!isSpecial ·) = cs.takeWhile (!isSpecial ·) := by
        cases tail with
        | nil => rw [List.append_nil]
        | cons d tail => exact Text.takeWhile_append_stop (by simp [stop d rfl]) cs tail
      rw [ends] at run
      have parts := List.takeWhile_append_dropWhile (p := (!isSpecial ·)) (l := cs)
      have shorter := (List.dropWhile_suffix (!isSpecial ·) (l := cs)).length_le
      have further := ih _ (by simp at size; omega) tame.dropRun rfl
      rw [← parts]
      refine CutsInPieces.cons _ ?_ (.text _) further
      rwa [← List.append_assoc, parts]

/-- A run of ordinary characters is one text, up to the character that ends it. -/
theorem cuts_run {run rest : List Char} {lexemes : List Lexeme} (run_ne : run ≠ [])
    (plain : ∀ c ∈ run, isSpecial c = false) (stop : ∀ d ∈ rest.head?, isSpecial d = true)
    (cuts : Cuts rest lexemes) :
    Cuts (run ++ rest) (⟨.text (.ofList run), .ofList run, 0⟩ :: lexemes) := by
  obtain ⟨c, cs, rfl⟩ := List.exists_cons_of_ne_nil run_ne
  have found := next?_text (plain c (by simp)) (cs ++ rest)
  have whole : (cs ++ rest).takeWhile (!isSpecial ·) = cs := by
    have inside : ∀ e ∈ cs, (!isSpecial e) = true := fun e member => by
      simp [plain e (List.mem_cons_of_mem c member)]
    rw [List.takeWhile_append_of_pos inside]
    cases rest with
    | nil => simp
    | cons d rest => simp [stop d rfl]
  rw [whole] at found
  have first := Cuts.cons found (List.drop_left' rfl) cuts
  rwa [List.take_left' rfl] at first

end Token

namespace Node

open Token (IsPiece)

/-- The texts that pieces are read as. -/
def textsOf (pieces : List Lexeme) : List Node := pieces.map fun l => .text l.spelling

theorem toList_sourceOf_textsOf (pieces : List Lexeme) :
    (sourceOf (textsOf pieces)).toList = pieces.flatMap (·.spelling.toList) := by
  induction pieces with
  | nil => rfl
  | cons l pieces ih =>
    have first : sourceOf (textsOf (l :: pieces)) = l.spelling ++ sourceOf (textsOf pieces) := rfl
    rw [first, String.toList_append, ih]
    rfl

namespace Builder

variable {name : String} {offset : Nat} {args : List Arg} {outer siblings : List Node}
  {frames : List Frame} {raw : String} {l : Lexeme} {pieces : List Lexeme}

def inside (name : String) (offset : Nat) (args : List Arg) (outer : List Node)
    (frames : List Frame) (raw : String) (siblings : List Node) : Builder :=
  ⟨raw, siblings, none, .environment name offset args outer :: frames⟩

/-- A piece is read as a text of its spelling. Only an opening bracket may belong to what stands in
front of it, and only in an optional argument does a closing one end anything. -/
theorem step_piece {b : Builder} (piece : IsPiece l)
    (settled : b.settle = ⟨raw, siblings, none, frames⟩)
    (free : l.token = .openBracket → b.owner = none)
    (plain : ∀ offset before owner outer more,
      frames ≠ .argument .optional offset before owner outer :: more) :
    b.step l = .ok ⟨raw ++ l.spelling, .text l.spelling :: siblings, none, frames⟩ := by
  cases piece with
  | text content => simp only [step, settled, write, push]
  | escape symbol visible =>
    have shown : escapeText symbol = .ofList ['\\', symbol] := by
      rw [escapeText, if_neg (by simp [visible])]
    simp only [step, settled, shown, write, push]
  | openBracket =>
    have owner := free rfl
    simp only [step, owner, settled, write, push]
  | closeBracket =>
    have closed : (Builder.mk raw siblings none frames).closeBracket =
        ⟨raw ++ "]", .text "]" :: siblings, none, frames⟩ := by
      unfold closeBracket
      split
      next other => exact absurd other (plain _ _ _ _ _)
      next => rfl
    simp only [step, settled, closed]

theorem foldlM_pieces (all : ∀ l ∈ pieces, IsPiece l)
    (plain : ∀ offset before owner outer more,
      frames ≠ .argument .optional offset before owner outer :: more) :
    ∃ raw', pieces.foldlM step ⟨raw, siblings, none, frames⟩ =
      .ok ⟨raw', (textsOf pieces).reverse ++ siblings, none, frames⟩ := by
  induction pieces generalizing raw siblings with
  | nil => exact ⟨raw, rfl⟩
  | cons l pieces ih =>
    have first := step_piece (b := ⟨raw, siblings, none, frames⟩) (all l (by simp)) rfl
      (fun _ => rfl) plain
    obtain ⟨raw', behind⟩ := @ih (.text l.spelling :: siblings) (raw ++ l.spelling)
      fun m member => all m (List.mem_cons_of_mem l member)
    refine ⟨raw', ?_⟩
    rw [List.foldlM_cons, first]
    simpa [textsOf, bind, Except.bind] using behind

/-- A text that starts with a line feed ends the arguments in front of it. -/
theorem foldlM_section {b : Builder} {cs : List Char}
    (settled : b.settle = inside name offset args outer frames raw siblings)
    (all : ∀ l ∈ pieces, IsPiece l) (spelled : pieces.flatMap (·.spelling.toList) = '\n' :: cs) :
    ∃ raw', pieces.foldlM step b =
      .ok (inside name offset args outer frames raw' ((textsOf pieces).reverse ++ siblings)) := by
  obtain ⟨raw', read⟩ := @foldlM_pieces siblings (.environment name offset args outer :: frames)
    raw pieces all nofun
  refine ⟨raw', ?_⟩
  rw [inside, ← read]
  cases pieces with
  | nil => cases spelled
  | cons l pieces =>
    have same : b.step l = b.settle.step l := by
      cases all l (by simp) with
      | text content => simp only [step, settled]; rfl
      | escape | openBracket | closeBracket => simp at spelled
    rw [List.foldlM_cons, List.foldlM_cons, same, settled, inside]

end Builder

/-- Tame text alone is read as its pieces. -/
theorem parse_tame {cs : List Char} (tame : Token.Tame cs) :
    ∃ pieces, pieces.flatMap (·.spelling.toList) = cs ∧
      parse (.ofList cs) = .ok (textsOf pieces) := by
  obtain ⟨pieces, all, spelled, cuts⟩ := Token.cutsInPieces_tame tame (by simp) .nil
  rw [List.append_nil, List.append_nil] at cuts
  obtain ⟨lexemes, scanned, same⟩ := cuts 0
  obtain ⟨raw, read⟩ := @Builder.foldlM_pieces [] [] "" pieces all nofun
  have built : build pieces = .ok (textsOf pieces) := by
    rw [List.append_nil] at read
    have finished : Builder.finish ⟨raw, (textsOf pieces).reverse, none, []⟩ =
        .ok (textsOf pieces) := by
      simp [Builder.finish, Builder.settle]
    rw [build, Builder.start, read]
    exact finished
  refine ⟨pieces, spelled, Builder.parse_of_lexemes ?_ same built⟩
  rwa [Token.tokenize, String.toList_ofList]

end Node

end Quire
