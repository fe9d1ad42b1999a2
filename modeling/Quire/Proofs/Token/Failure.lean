import Mathlib.Data.String.Basic
import Quire.Node.Parse
import Quire.Proofs.Text.Returns
import Quire.Proofs.Token.Spelling

/-! Where the scan of a source stops. No token starts at a dollar sign that is the last one, at a
backslash that ends the source, and at a percent sign whose line ends in a lone carriage return;
everywhere else one does. Main statement: `tokenize_fails_iff`. -/
namespace Quire

open Text (LineFree)

namespace Token

/-- Texts that no token starts, each with the complaint about it. -/
inductive Stuck : List Char → String → Prop
  | dollar {behind : List Char} (last : '$' ∉ behind) : Stuck ('$' :: behind) "unterminated math"
  | backslash : Stuck ['\\'] "unexpected input '\\\\'"
  | percent {line behind : List Char} (free : LineFree line) (lone : behind.head? ≠ some '\n') :
      Stuck ('%' :: (line ++ '\r' :: behind)) "unexpected input '%'"

/-- What a scan cuts off from a text, token after token, and what is then left of the text. -/
inductive Reaches : List Char → List Char → List Char → Prop
  | here (cs : List Char) : Reaches cs [] cs
  | behind {c : Char} {cs front rest : List Char} {token : Token} {n : Nat}
      (found : next? c cs = some (token, n)) (later : Reaches (cs.drop n) front rest) :
      Reaches (c :: cs) (c :: cs.take n ++ front) rest

theorem Reaches.append_eq {cs front rest : List Char} (reaches : Reaches cs front rest) :
    front ++ rest = cs := by
  induction reaches with
  | here => rfl
  | behind _ _ ih => rw [List.append_assoc, ih, List.cons_append, List.take_append_drop]

section Recognisers
variable {c : Char} {cs : List Char}

/-- A comment needs the end of its line, or of the text. -/
theorem comment?_eq_none_iff :
    comment? cs = none ↔
      ∃ line behind, LineFree line ∧ cs = line ++ '\r' :: behind ∧ behind.head? ≠ some '\n' := by
  constructor
  · intro none_
    simp only [comment?] at none_
    have parts := List.take_append_drop (cs.takeWhile fun c => c != '\r' && c != '\n').length cs
    rw [Text.take_takeWhile] at parts
    split at none_
    next => cases none_
    next behind lone eq =>
      refine ⟨_, behind, Text.free_takeWhile rfl rfl cs, by rw [← eq, parts], fun feed => ?_⟩
      obtain ⟨rest, rfl⟩ := List.head?_eq_some_iff.mp feed
      exact lone rest rfl
    next => cases none_
  · rintro ⟨line, behind, ⟨noReturn, noFeed⟩, rfl, lone⟩
    have content : (line ++ '\r' :: behind).takeWhile (fun c => c != '\r' && c != '\n') = line := by
      rw [List.takeWhile_append_of_pos]
      · simp
      · intro c member
        have notReturn : c ≠ '\r' := ne_of_mem_of_not_mem member noReturn
        have notFeed : c ≠ '\n' := ne_of_mem_of_not_mem member noFeed
        simp [notReturn, notFeed]
    simp only [comment?, content, List.drop_left]
    split
    next feed eq =>
      obtain rfl := (List.cons.inj eq).2
      exact absurd rfl lone
    next => rfl
    next other => exact absurd rfl (other behind)

/-- Two dollar signs are math already, if only with nothing in between. -/
theorem dollar?_eq_none_iff : dollar? cs = none ↔ '$' ∉ cs := by
  have single (cs : List Char) : mathUpTo? false 0 ['$'] cs = none ↔ '$' ∉ cs := by
    rw [mathUpTo?, Option.map_eq_none_iff, Text.before?_singleton_eq_none_iff]
  unfold dollar?
  split
  next rest =>
    rw [Option.orElse_eq_orElse, Option.orElse_eq_or, Option.or_eq_none_iff, single]
    simp
  next => exact single cs

/-- A backslash with anything behind it is at least an escape or a command, so that no math in
brackets and no environment has to be closed for it. -/
theorem isSome_next?_backslash (d : Char) (ds : List Char) :
    (next? '\\' (d :: ds)).isSome = true := by
  have last : (command? (d :: ds) <|> escape? (d :: ds)).isSome = true := by
    by_cases letter : d.isAlpha = true
    · have word : isWordChar d = true := by simp [isWordChar, letter]
      simp [command?, word]
    · simp [escape?, letter]
  simp only [Option.orElse_eq_orElse, Option.orElse_eq_or] at last
  change (bracketMath? (d :: ds) <|> begin? (d :: ds) <|> end? (d :: ds) <|> accent? (d :: ds) <|>
    command? (d :: ds) <|> escape? (d :: ds)).isSome = true
  simp only [Option.orElse_eq_orElse, Option.orElse_eq_or, Option.isSome_or, last, Bool.or_true]

theorem next?_eq_none_iff : next? c cs = none ↔ ∃ message, Stuck (c :: cs) message := by
  constructor
  · intro none_
    by_cases plain : isSpecial c = false
    · rw [next?_text plain] at none_
      cases none_
    simp only [isSpecial, Bool.not_eq_false, Bool.or_eq_true, beq_iff_eq] at plain
    rcases plain with (((((rfl | rfl) | rfl) | rfl) | rfl) | rfl) | rfl
    · cases cs with
      | nil => exact ⟨_, .backslash⟩
      | cons d ds => exact absurd none_ (Option.isSome_iff_ne_none.mp (isSome_next?_backslash d ds))
    · cases none_
    · cases none_
    · cases none_
    · cases none_
    · exact ⟨_, .dollar (dollar?_eq_none_iff.mp none_)⟩
    · obtain ⟨line, behind, free, rfl, lone⟩ := comment?_eq_none_iff.mp none_
      exact ⟨_, .percent free lone⟩
  · rintro ⟨message, stuck⟩
    cases stuck with
    | dollar last => exact dollar?_eq_none_iff.mpr last
    | backslash => rfl
    | percent free lone => exact comment?_eq_none_iff.mpr ⟨_, _, free, rfl, lone⟩

theorem Stuck.message_eq {message : String} (stuck : Stuck (c :: cs) message) :
    (problemAt c).message = message := by
  cases stuck <;> decide +kernel

end Recognisers

section Faults
variable {offset : Nat} {cs front rest : List Char} {fault : Misplaced}

/-- A scan fails at the first place that starts no token. -/
theorem scan_eq_error_iff :
    scan offset cs = .error fault ↔ ∃ front c rest, Reaches cs front (c :: rest) ∧
      next? c rest = none ∧ fault = ⟨offset + String.utf8Len front, problemAt c⟩ := by
  fun_induction scan offset cs with
  | case1 offset =>
    constructor
    · intro ended
      cases ended
    · rintro ⟨front, c, rest, reaches, -⟩
      cases reaches
  | case2 offset c cs none_ =>
    constructor
    · intro failed
      cases failed
      exact ⟨[], c, cs, .here _, none_, rfl⟩
    · rintro ⟨front, d, rest, reaches, -, rfl⟩
      cases reaches with
      | here => rfl
      | behind found =>
        rw [none_] at found
        cases found
  | case3 offset c cs token more found spelling =>
    rename_i ih
    have size : spelling.utf8ByteSize = String.utf8Len (c :: cs.take more) :=
      String.utf8ByteSize_ofList _
    have later : ((⟨token, spelling, offset⟩ :: ·) <$>
        scan (offset + spelling.utf8ByteSize) (cs.drop more)) = .error fault ↔
        scan (offset + spelling.utf8ByteSize) (cs.drop more) = .error fault := by
      cases scan (offset + spelling.utf8ByteSize) (cs.drop more) <;> constructor <;> intro same <;>
        cases same <;> rfl
    rw [later, ih]
    constructor
    · rintro ⟨front, d, rest, reaches, stuck, rfl⟩
      refine ⟨_, d, rest, .behind found reaches, stuck, ?_⟩
      rw [String.utf8Len_append, size, Nat.add_assoc]
    · rintro ⟨front, d, rest, reaches, stuck, rfl⟩
      cases reaches with
      | here =>
        rw [found] at stuck
        cases stuck
      | @behind _ _ front _ _ _ found' reaches =>
        obtain ⟨rfl, rfl⟩ := Prod.mk.inj (Option.some.inj (found.symm.trans found'))
        exact ⟨front, d, rest, reaches, stuck, by rw [String.utf8Len_append, size, Nat.add_assoc]⟩

theorem lineOf_utf8Len (front rest : List Char) :
    lineOf (.ofList (front ++ rest)) (String.utf8Len front) = 1 + front.count '\n' := by
  have lines : lineOf.go (String.utf8Len front) (front ++ rest) = front.count '\n' := by
    induction front with
    | nil => cases rest <;> rfl
    | cons c front ih =>
      have size : String.utf8Len (c :: front) = String.utf8Len front + c.utf8Size := rfl
      have some_ : String.utf8Len (c :: front) ≠ 0 := by
        have := c.utf8Size_pos
        omega
      rw [List.cons_append, lineOf.go, if_neg some_, size, Nat.add_sub_cancel, ih, List.count_cons]
      by_cases feed : c = '\n' <;> simp [feed, Nat.add_comm]
  rw [lineOf, String.toList_ofList, lines, Nat.add_comm]

end Faults

theorem parse_of_misplaced {source : String} {fault : Misplaced}
    (failed : tokenize source = .error fault) :
    Node.parse source = .error (.badSyntax (lineOf source fault.offset) fault.problem) := by
  rw [Node.parse, failed]
  rfl

/-- A source fails to be cut just when the scan comes to one of the texts that start no token. The
fault is bad syntax on the line of that text and complains about it. With anything behind it, a
backslash starts a token, whether or not what it opens is closed. -/
theorem tokenize_fails_iff (source : String) :
    (∀ line message,
      (∃ fault, tokenize source = .error fault ∧ fault.problem.message = message ∧
          lineOf source fault.offset = line ∧
          Node.parse source = .error (.badSyntax line fault.problem)) ↔
        ∃ front rest, Reaches source.toList front rest ∧ Stuck rest message ∧
          line = 1 + front.count '\n') ∧
      ∀ d behind, ∃ token n, next? '\\' (d :: behind) = some (token, n) := by
  have line_eq {front rest : List Char} (reaches : Reaches source.toList front rest) :
      lineOf source (0 + String.utf8Len front) = 1 + front.count '\n' := by
    rw [Nat.zero_add, ← String.ofList_toList (s := source), ← reaches.append_eq, lineOf_utf8Len]
  refine ⟨fun line message => ⟨?_, ?_⟩, fun d behind => ?_⟩
  · rintro ⟨fault, failed, rfl, rfl, -⟩
    obtain ⟨front, c, rest, reaches, none_, rfl⟩ := scan_eq_error_iff.mp failed
    obtain ⟨message, stuck⟩ := next?_eq_none_iff.mp none_
    exact ⟨front, c :: rest, reaches, stuck.message_eq ▸ stuck, line_eq reaches⟩
  · rintro ⟨front, rest, reaches, stuck, rfl⟩
    cases rest with
    | nil => cases stuck
    | cons c rest =>
      have failed : tokenize source = .error ⟨0 + String.utf8Len front, problemAt c⟩ :=
        scan_eq_error_iff.mpr
          ⟨front, c, rest, reaches, next?_eq_none_iff.mpr ⟨message, stuck⟩, rfl⟩
      exact ⟨_, failed, stuck.message_eq, line_eq reaches,
        line_eq reaches ▸ parse_of_misplaced failed⟩
  · obtain ⟨⟨token, n⟩, found⟩ := Option.isSome_iff_exists.mp (isSome_next?_backslash d behind)
    exact ⟨token, n, found⟩

example : tokenize "a\nb $c" = .error ⟨4, .unterminatedMath⟩ ∧
    lineOf "a\nb $c" 4 = 2 := by decide +kernel

end Token
end Quire
