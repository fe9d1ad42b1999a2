import Quire.Proofs.Flavor.Tags
import Quire.Proofs.Prose.Plain

/-! The tags that running text writes. All of its markup is closed where it ends, and what else is
written has no `<`, except that math is written as it is. -/
namespace Quire.Prose

open Html (Reads)

inductive Reading
  | text
  /-- Behind the backslash of an escape. -/
  | escape
  | comment
deriving DecidableEq

def Reading.next : Reading → Char → Option Reading
  | .text, c =>
    if c == '$' || c == '\x7b' || c == '\x7d' then none
    else some (if c = '\\' then .escape else if c = '%' then .comment else .text)
  | .escape, c => if c.isAlpha || c == '(' || c == '\n' then none else some .text
  | .comment, c => some (if c = '\n' then .text else .comment)

/-- Text without math, commands and groups, which are no text for the scanner: escapes, comments,
and characters that start neither. -/
def mathless (at_ : Reading) : List Char → Bool
  | [] => at_ != .escape
  | c :: cs => (at_.next c).any fun next => mathless next cs

/-- Characters that such text holds in comments and escapes alone, or at the start of these. -/
def activeChars : List Char := ['$', '\x7b', '\x7d', '\\', '%']

theorem mathless_cons {c : Char} (plain : c ∉ activeChars) (cs : List Char) :
    mathless .text (c :: cs) = mathless .text cs := by
  simp only [activeChars, List.mem_cons, List.not_mem_nil, or_false, not_or] at plain
  obtain ⟨dollar, open_, close, slash, percent⟩ := plain
  simp [mathless, Reading.next, dollar, open_, close, slash, percent]

theorem mathless_append {cs : List Char} (plain : ∀ c ∈ cs, c ∉ activeChars) (ds : List Char) :
    mathless .text (cs ++ ds) = mathless .text ds := by
  induction cs with
  | nil => rfl
  | cons c cs ih =>
    rw [List.cons_append, mathless_cons (plain c List.mem_cons_self)]
    exact ih fun d member => plain d (List.mem_cons_of_mem c member)

structure Escapes (d : Char) (ds : List Char) : Prop where
  notAlpha : d.isAlpha = false
  notOpen : d ≠ '('
  behind : mathless .text ds = true

theorem escapes_of_mathless {cs : List Char} (held : mathless .text ('\\' :: cs) = true) :
    ∃ d ds, cs = d :: ds ∧ Escapes d ds := by
  cases cs with
  | nil => cases held
  | cons d ds =>
    have escape : mathless .escape (d :: ds) = true := by simpa [mathless, Reading.next] using held
    obtain ⟨next, read, behind⟩ := (Option.any_eq_true _ _).mp escape
    change (if d.isAlpha || d == '(' || d == '\n' then none else some .text) = some next at read
    split at read
    next => cases read
    next other =>
      cases read
      simp only [Bool.or_eq_true, beq_iff_eq, not_or, Bool.not_eq_true] at other
      exact ⟨d, ds, rfl, other.1.1, other.1.2, behind⟩

theorem mathless_behind_comment {cs : List Char} (held : mathless .comment cs = true) :
    mathless .text (cs.drop (commentLength cs)) = true := by
  induction cs with
  | nil => rfl
  | cons c cs ih =>
    by_cases ends : c = '\n'
    · subst ends
      have length : commentLength ('\n' :: cs) = 1 := by simp [commentLength, Text.before?]
      rw [length]
      simpa [mathless, Reading.next] using held
    · have length : commentLength (c :: cs) = commentLength cs + 1 := by
        unfold commentLength
        rw [Text.before?, if_neg (by simpa using Ne.symm ends)]
        cases Text.before? ['\n'] cs <;> rfl
      have behind : mathless .comment cs = true := by
        simpa [mathless, Reading.next, ends] using held
      rw [length]
      exact ih behind

/-- An accent stands on a letter. -/
theorem compose?_plain {mark base c : Char} (composed : Accent.compose? mark base = some c) :
    base ∉ activeChars := by
  have letters : (Accent.table.all fun row => !(activeChars.map Char.toLower).contains row.2.1) =
      true := by decide
  intro active
  obtain ⟨row, found, -⟩ := Option.map_eq_some_iff.mp composed
  have fits := List.find?_some found
  simp only [Bool.and_eq_true, beq_iff_eq] at fits
  have letter := List.all_eq_true.mp letters row (List.mem_of_find?_eq_some found)
  rw [fits.2] at letter
  simp [List.mem_map_of_mem active] at letter

theorem mathless_behind_accent {d : Char} {ds : List Char} {letter : Char} {used : Nat}
    (escapes : Escapes d ds) (decoded : Accent.decode? (d :: ds) = some (letter, used)) :
    mathless .text ((d :: ds).drop used) = true := by
  obtain ⟨⟨base, size⟩, argument, decoded⟩ := Option.bind_eq_some_iff.mp decoded
  obtain ⟨c, composed, decoded⟩ := Option.bind_eq_some_iff.mp decoded
  obtain ⟨-, rfl⟩ := Prod.mk.inj (Option.some.inj decoded)
  have plain := compose?_plain composed
  have held := escapes.behind
  change mathless .text (ds.drop size) = true
  unfold Accent.argument? at argument
  split at argument
  next rest => cases held
  next rest => cases held
  next c rest _ _ =>
    cases argument
    rwa [mathless_cons plain] at held
  next => cases argument

/-- A row of the table is plain, or an escape, or starts like a command. -/
theorem rows_html : ∀ row ∈ table .html, ∃ a as, row.1.toList = a :: as ∧
    ((∀ c ∈ a :: as, c ∉ activeChars) ∨
      a = '\\' ∧ ∃ d ds, as = d :: ds ∧ (ds = [] ∨ d.isAlpha = true)) := by
  intro row member
  have rows : ∀ row ∈ table .html, row.1.toList ≠ [] ∧
      (row.1.toList.all (!activeChars.contains ·) = true ∨ row.1.toList.head? = some '\\' ∧
        row.1.toList.tail ≠ [] ∧
          (row.1.toList.tail.tail = [] ∨ row.1.toList.tail.head?.any Char.isAlpha = true)) := by
    decide
  have starts := rows row member
  cases written : row.1.toList with
  | nil => exact absurd written starts.1
  | cons a as =>
    rw [written] at starts
    refine ⟨a, as, rfl, starts.2.imp (by simp) fun ⟨slash, more, second⟩ => ?_⟩
    cases as with
    | nil => exact absurd rfl more
    | cons d ds => exact ⟨by simpa using slash, d, ds, rfl, by simpa using second⟩

theorem mathless_behind_entry {c : Char} {cs text : List Char} {used : Nat}
    (held : mathless .text (c :: cs) = true) (fits : entry? .html c cs = some (text, used)) :
    mathless .text (cs.drop used) = true := by
  obtain ⟨row, listed, -, eq⟩ := row_of_entry fits
  obtain ⟨a, as, written, kind⟩ := rows_html row listed
  rw [eq, written] at held
  rcases kind with plain | ⟨rfl, d, ds, rfl, short⟩
  · rwa [mathless_append plain] at held
  · obtain ⟨d', ds', same, escapes⟩ := escapes_of_mathless held
    cases same
    rcases short with rfl | alpha
    · exact escapes.behind
    · exact absurd alpha (by simp [escapes.notAlpha])

theorem reads_table : ∀ row ∈ table .html, Reads [] row.2.toList [] := by decide

/-- No accent makes an angle bracket. -/
theorem decode?_letter {cs : List Char} {letter : Char} {used : Nat}
    (decoded : Accent.decode? cs = some (letter, used)) : letter ∉ ['<', '>'] := by
  have letters : (Accent.table.all fun row => row.2.2.1 ∉ ['<', '>'] && row.2.2.2 ∉ ['<', '>']) =
      true := by decide
  cases cs with
  | nil => cases decoded
  | cons mark rest =>
    obtain ⟨⟨base, size⟩, -, decoded⟩ := Option.bind_eq_some_iff.mp decoded
    obtain ⟨c, composed, decoded⟩ := Option.bind_eq_some_iff.mp decoded
    obtain ⟨rfl, -⟩ := Prod.mk.inj (Option.some.inj decoded)
    obtain ⟨row, found, rfl⟩ := Option.map_eq_some_iff.mp composed
    have letter := List.all_eq_true.mp letters row (List.mem_of_find?_eq_some found)
    simp only [Bool.and_eq_true, decide_eq_true_eq] at letter
    dsimp only
    split
    · exact letter.2
    · exact letter.1

theorem reads_entry {c : Char} {cs text : List Char} {used : Nat}
    (fits : entry? .html c cs = some (text, used)) : Reads [] text [] := by
  obtain ⟨row, listed, rfl, -⟩ := row_of_entry fits
  exact reads_table row listed

/-- Angle brackets are replaced. -/
theorem entry?_angle {c : Char} (angle : c ∈ ['<', '>']) (cs : List Char) :
    entry? .html c cs ≠ none := by
  have rows : ∀ c ∈ ['<', '>'], ∃ row ∈ table .html, row.1.toList = [c] := by decide
  obtain ⟨row, listed, written⟩ := rows c angle
  exact entry?_ne_none listed (by simp [written])

/-- An escape is no command. -/
theorem command_escape {d : Char} {ds : List Char} (notAlpha : d.isAlpha = false) :
    command (d :: ds) = .stuck := by
  have name : (d :: ds).takeWhile Char.isAlpha = [] := by simp [notAlpha]
  unfold command
  rw [name]
  rfl

theorem math?_eq_none {c : Char} {cs : List Char} (held : mathless .text (c :: cs) = true) :
    math? .html c cs = none := by
  unfold math?
  split
  next => cases held
  next => cases held
  next =>
    obtain ⟨d, ds, same, escapes⟩ := escapes_of_mathless held
    cases same
    exact absurd rfl escapes.notOpen
  next => rfl

/-- A step in text without math writes a text that reads on its own, or fails. -/
theorem action_mathless {c : Char} {cs : List Char} (held : mathless .text (c :: cs) = true) :
    action .html c cs = .stuck ∨ ∃ text used, action .html c cs = .put text used ∧
      Reads [] text [] ∧ mathless .text (cs.drop used) = true := by
  unfold action
  split
  next percent =>
    subst percent
    have behind : mathless .comment cs = true := by simpa [mathless, Reading.next] using held
    exact .inr ⟨_, _, rfl, rfl, mathless_behind_comment behind⟩
  next notPercent =>
  rw [math?_eq_none held]
  by_cases slash : c = '\\'
  · subst slash
    obtain ⟨d, ds, rfl, escapes⟩ := escapes_of_mathless held
    simp only [if_true]
    split
    next letter used decoded =>
      exact .inr ⟨_, _, rfl, .of_plain (by simpa using Ne.symm (List.ne_of_not_mem_cons (decode?_letter decoded))) [],
        mathless_behind_accent escapes decoded⟩
    next =>
    split
    next text used fits => exact .inr ⟨_, _, rfl, reads_entry fits, mathless_behind_entry held fits⟩
    next => exact .inl (command_escape escapes.notAlpha)
  · simp only [if_neg slash]
    split
    next text used fits => exact .inr ⟨_, _, rfl, reads_entry fits, mathless_behind_entry held fits⟩
    next missing =>
      have other : '<' ≠ c := by
        rintro rfl
        exact entry?_angle (by decide) cs missing
      have plain : c ∉ activeChars := by
        simp only [activeChars, List.mem_cons, List.not_mem_nil, or_false]
        rintro (rfl | rfl | rfl | rfl | rfl)
        · cases held
        · cases held
        · cases held
        · exact slash rfl
        · exact notPercent rfl
      exact .inr ⟨_, _, rfl, .of_plain (by simpa using other) [], by
        rwa [mathless_cons plain] at held⟩

/-- Running text leaves open what was open before it. -/
theorem reads_convert {cs out : List Char} (held : mathless .text cs = true)
    (converted : convert .html cs = .ok out) : Reads [] out [] := by
  fun_induction convert .html cs generalizing out with
  | case1 =>
    cases converted
    rfl
  | case2 c cs text used acts ih =>
    obtain stuck | ⟨text', used', acts', reads, behind⟩ := action_mathless held
    · rw [stuck] at acts
      cases acts
    · rw [acts'] at acts
      cases acts
      obtain ⟨more, rest, rfl⟩ := exists_of_map_ok converted
      exact reads.append (ih behind rest)
  | case3 c cs wrap skip size acts =>
    obtain stuck | ⟨text, used, acts', -⟩ := action_mathless held
    · rw [stuck] at acts
      cases acts
    · rw [acts'] at acts
      cases acts
  | case4 => cases converted

theorem reads_normalize {raw text : String} (held : mathless .text raw.toList = true)
    (normalized : normalize .html raw = .ok text) : Reads [] text.toList [] := by
  obtain ⟨out, converted, rfl⟩ := exists_of_map_ok normalized
  rw [String.toList_ofList]
  exact reads_convert held converted

end Quire.Prose
