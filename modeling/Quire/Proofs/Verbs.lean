import Mathlib.Data.List.Chain
import Mathlib.Data.List.Infix
import Mathlib.Data.List.TakeWhile
import Quire.Proofs.Text.Numeral
import Quire.Proofs.Text.Returns
import Quire.Verbs

/-! Sources without inline verbatim text, which are read as they are, and what becomes of the text
around a span. A span stands on one line, so that carriage returns at the line ends are none of
it. -/
namespace Quire.Verbs

/-- No span starts in a text, nor at its end together with what follows. -/
def Unspanned (cs : List Char) : Prop :=
  cs.IsChain (fun a b => a = '\\' → b ≠ 'v') ∧ cs.getLast? ≠ some '\\'

instance (cs : List Char) : Decidable (Unspanned cs) := inferInstanceAs (Decidable (_ ∧ _))

variable {cs ds : List Char}

theorem Unspanned.of_forall (plain : ∀ c ∈ cs, c ≠ '\\') : Unspanned cs := by
  refine ⟨?_, fun last => plain _ (List.mem_of_getLast? last) rfl⟩
  have all : cs.IsChain fun _ _ => True := by
    rw [List.isChain_iff_getElem]
    exact fun _ _ => trivial
  exact all.imp_of_mem_imp fun a b member _ _ slash => absurd slash (plain a member)

theorem Unspanned.append (first : Unspanned cs) (second : Unspanned ds) : Unspanned (cs ++ ds) := by
  refine ⟨first.1.append second.1 fun a last b _ slash => ?_, ?_⟩
  · exact absurd (slash ▸ last) first.2
  · rw [List.getLast?_append]
    cases last : ds.getLast? with
    | none => simpa using first.2
    | some d => simpa [last] using second.2

structure Spans (cs star : List Char) (fence : Char) (body more : List Char) : Prop where
  starred : star = [] ∨ star = ['*']
  fenced : isFence fence = true
  apart : fence ∉ body
  line : '\n' ∉ body
  chars_eq : cs = star ++ fence :: (body ++ fence :: more)

theorem spans_of_span? {cs body : List Char} {used : Nat} (found : span? cs = some (body, used)) :
    ∃ star fence more, Spans cs star fence body more ∧ used = star.length + body.length + 2 := by
  unfold span? at found
  dsimp only at found
  split at found
  · cases found
  next fence rest opened =>
    split at found
    next closed =>
      obtain ⟨rfl, rfl⟩ := Prod.mk.inj (Option.some.inj found)
      obtain ⟨fenced, ended⟩ := Bool.and_eq_true_iff.mp closed
      obtain ⟨more, behind⟩ := List.head?_eq_some_iff.mp (of_decide_eq_true ended)
      have whole := List.prefix_append_drop
        (List.takeWhile_prefix (fun c => c != fence && c != '\n') (l := rest))
      rw [behind] at whole
      have inside : ∀ c ∈ rest.takeWhile fun c => c != fence && c != '\n', c ≠ fence ∧ c ≠ '\n' :=
        fun c member => by simpa using List.mem_takeWhile_imp member
      have fits : (if cs.head? = some '*' then 1 else 0) ≤ cs.length := by
        cases cs <;> simp
        split <;> omega
      refine ⟨cs.take (if cs.head? = some '*' then 1 else 0), fence, more,
        ⟨?_, fenced, fun member => (inside _ member).1 rfl, fun member => (inside _ member).2 rfl,
          ?_⟩, ?_⟩
      · cases cs with
        | nil => exact .inl (by simp)
        | cons c cs => by_cases star : c = '*' <;> simp [star]
      · rw [← whole, ← opened, List.take_append_drop]
      · rw [List.length_take_of_le fits]
    next => cases found

theorem Spans.span?_eq {cs star body more : List Char} {fence : Char}
    (spans : Spans cs star fence body more) :
    span? cs = some (body, star.length + body.length + 2) := by
  obtain ⟨starred, fenced, apart, line, rfl⟩ := spans
  have other : fence ≠ '*' := by rintro rfl; cases fenced
  have inside : ∀ c ∈ body, (c != fence && c != '\n') = true := by
    intro c member
    have differs : c ≠ fence := fun same => apart (same ▸ member)
    have sameLine : c ≠ '\n' := fun same => line (same ▸ member)
    simp [differs, sameLine]
  have stops : (body ++ fence :: more).takeWhile (fun c => c != fence && c != '\n') = body := by
    rw [List.takeWhile_append_of_pos inside]
    simp
  obtain rfl | rfl := starred
  · simp [span?, other, fenced, stops]
  · simp [span?, fenced, stops]

def IsSpan (span body : List Char) : Prop :=
  ∃ star fence, Spans (star ++ fence :: (body ++ [fence])) star fence body [] ∧
    span = "\\verb".toList ++ (star ++ fence :: (body ++ [fence]))

def Spanless (cs : List Char) : Prop := ∀ span body, IsSpan span body → ¬ span <:+: cs

/-- The span that starts with a character: its body, and the number of characters behind `\verb`. -/
def spanAt? (c : Char) (cs : List Char) : Option (List Char × Nat) :=
  if c = '\\' then "verb".toList.isPrefixOf? cs >>= span? else none

theorem extract_cons (n : Nat) (c : Char) (cs : List Char) :
    extract n (c :: cs) = match spanAt? c cs with
      | some (body, used) =>
        let behind := extract (n + 1) (cs.drop ("verb".length + used))
        ((placeholder n).toList ++ behind.1, .ofList body :: behind.2)
      | none => (c :: (extract n cs).1, (extract n cs).2) := by
  rw [extract]
  rfl

theorem spanAt?_eq_some_iff {c : Char} {cs body : List Char} {used : Nat} :
    spanAt? c cs = some (body, used) ↔
      ∃ span more, IsSpan span body ∧ c :: cs = span ++ more ∧ span.length = 5 + used := by
  constructor
  · intro found
    unfold spanAt? at found
    split at found
    next slash =>
      obtain ⟨rest, starts, found⟩ := Option.bind_eq_some_iff.mp found
      obtain rfl := List.isPrefixOf?_eq_some_iff_append_eq.mp starts
      obtain ⟨star, fence, more, ⟨starred, fenced, apart, line, rfl⟩, rfl⟩ := spans_of_span? found
      refine ⟨_, more, ⟨star, fence, ⟨starred, fenced, apart, line, rfl⟩, rfl⟩, ?_, ?_⟩
      · simp [slash]
      · simp
        omega
    next => cases found
  · rintro ⟨span, more, ⟨star, fence, ⟨starred, fenced, apart, line, -⟩, rfl⟩, whole, length⟩
    obtain ⟨rfl, rfl⟩ :
        c = '\\' ∧ cs = "verb".toList ++ (star ++ fence :: (body ++ fence :: more)) := by
      simpa using whole
    have spans : Spans (star ++ fence :: (body ++ fence :: more)) star fence body more :=
      ⟨starred, fenced, apart, line, rfl⟩
    have used_eq : used = star.length + body.length + 2 := by
      simp at length
      omega
    rw [spanAt?, if_pos rfl, List.isPrefixOf?_eq_some_iff_append_eq.mpr rfl, used_eq]
    exact spans.span?_eq

/-- A span does not go on into a text without fences. -/
theorem IsSpan.prefix_of_append {span body cs tail : List Char} (isSpan : IsSpan span body)
    (plain : ∀ c ∈ tail, isFence c = false) (starts : span <+: cs ++ tail) : span <+: cs := by
  obtain ⟨star, fence, spans, rfl⟩ := isSpan
  obtain ⟨more, whole⟩ := starts
  have whole' : cs ++ tail =
      ("\\verb".toList ++ (star ++ fence :: body)) ++ fence :: more := by
    rw [← whole]
    simp
  obtain ⟨gap, -, beyond⟩ | ⟨kept, front, beyond⟩ := List.append_eq_append_iff.mp whole'
  · exact absurd (plain fence (by simp [beyond])) (by simp [spans.fenced])
  · cases kept with
    | nil =>
      have among : fence ∈ tail := by rw [← List.nil_append tail, ← beyond]; simp
      exact absurd (plain fence among) (by simp [spans.fenced])
    | cons c kept =>
      obtain rfl : fence = c := (List.cons.inj beyond).1
      exact ⟨kept, by simp [front]⟩

theorem spanAt?_append {tail : List Char} (plain : ∀ c ∈ tail, isFence c = false) (c : Char)
    (cs : List Char) : spanAt? c (cs ++ tail) = spanAt? c cs := by
  refine Option.ext fun ⟨body, used⟩ => ?_
  rw [spanAt?_eq_some_iff, spanAt?_eq_some_iff]
  constructor
  · rintro ⟨span, more, isSpan, whole, length⟩
    have starts : span <+: c :: cs ++ tail := ⟨more, whole.symm⟩
    obtain ⟨more', whole'⟩ := isSpan.prefix_of_append plain starts
    exact ⟨span, more', isSpan, whole'.symm, length⟩
  · rintro ⟨span, more, isSpan, whole, length⟩
    exact ⟨span, more ++ tail, isSpan, by rw [← List.cons_append, whole, List.append_assoc], length⟩

theorem used_le_of_spanAt? {c : Char} {cs body : List Char} {used : Nat}
    (found : spanAt? c cs = some (body, used)) : "verb".length + used ≤ cs.length := by
  obtain ⟨span, more, -, whole, length⟩ := spanAt?_eq_some_iff.mp found
  have lengths := congrArg List.length whole
  have verb : "verb".length = 4 := rfl
  simp only [List.length_cons, List.length_append, length] at lengths
  omega

theorem extract_spanless {cs : List Char} (spanless : Spanless cs) (n : Nat) :
    extract n cs = (cs, []) := by
  induction cs with
  | nil => rw [extract]
  | cons c cs ih =>
    have none_ : spanAt? c cs = none := by
      refine Option.eq_none_iff_forall_ne_some.mpr fun taken found => ?_
      obtain ⟨span, more, isSpan, whole, -⟩ := spanAt?_eq_some_iff.mp found
      exact spanless span taken.1 isSpan ⟨[], more, by rw [whole, List.nil_append]⟩
    have behind := ih fun span body isSpan inside =>
      spanless span body isSpan (List.infix_cons inside)
    rw [extract_cons, none_, behind]

theorem spanless_of_isChain (chain : cs.IsChain fun a b => a = '\\' → b ≠ 'v') : Spanless cs := by
  rintro span body ⟨star, fence, -, rfl⟩ inside
  have part := List.IsChain.infix chain inside
  exact (List.isChain_cons_cons.mp part).1 rfl rfl

theorem extract_unspanned (n : Nat) (chain : cs.IsChain fun a b => a = '\\' → b ≠ 'v') :
    extract n cs = (cs, []) :=
  extract_spanless (spanless_of_isChain chain) n

theorem preprocess_unspanned {tex : String} (unspanned : Unspanned tex.toList)
    (kept : List String) : preprocess kept tex = (tex, kept) := by
  rw [preprocess, extract_unspanned _ unspanned.1]
  simp

/-- A text without fences behind another one makes no difference to the spans in that one. -/
theorem extract_append {tail : List Char} (plain : ∀ c ∈ tail, isFence c = false)
    (alone : ∀ n, extract n tail = (tail, [])) (n : Nat) (cs : List Char) :
    extract n (cs ++ tail) = ((extract n cs).1 ++ tail, (extract n cs).2) := by
  induction size : cs.length using Nat.strong_induction_on generalizing cs n with
  | _ size ih =>
    cases cs with
    | nil => simp [alone, extract]
    | cons c cs =>
      rw [List.length_cons] at size
      rw [List.cons_append, extract_cons, extract_cons, spanAt?_append plain]
      split
      next body used found =>
        have fits := used_le_of_spanAt? found
        have behind := ih _ (by rw [← size]; simp only [List.length_drop]; omega) (n + 1)
          (cs.drop ("verb".length + used)) rfl
        simp only [List.drop_append_of_le_length fits, behind, List.append_assoc]
      next => rw [ih cs.length (by omega) n cs rfl, List.cons_append]

theorem spanAt?_eq_none {c : Char} {cs : List Char} (other : c = '\\' → cs.head? ≠ some 'v') :
    spanAt? c cs = none := by
  refine Option.eq_none_iff_forall_ne_some.mpr fun ⟨body, used⟩ found => ?_
  obtain ⟨span, more, ⟨star, fence, -, rfl⟩, whole, -⟩ := spanAt?_eq_some_iff.mp found
  obtain ⟨rfl, rfl⟩ := List.cons.inj whole
  exact other rfl rfl

/-- A text that no span starts in makes no difference to the spans behind it. -/
theorem extract_unspanned_append {front : List Char} (unspanned : Unspanned front) (n : Nat)
    (cs : List Char) :
    extract n (front ++ cs) = (front ++ (extract n cs).1, (extract n cs).2) := by
  induction front with
  | nil => rfl
  | cons c front ih =>
    obtain ⟨starts, rest⟩ := List.isChain_cons.mp unspanned.1
    cases front with
    | nil =>
      have other : c ≠ '\\' := fun slash => unspanned.2 (by simp [slash])
      rw [List.singleton_append, extract_cons, spanAt?_eq_none fun slash => absurd slash other]
      rfl
    | cons d front =>
      have last : (d :: front).getLast? ≠ some '\\' := by simpa using unspanned.2
      have none_ : spanAt? c (d :: front ++ cs) = none :=
        spanAt?_eq_none fun slash => by simpa using starts d rfl slash
      rw [List.cons_append, extract_cons, none_, ih ⟨rest, last⟩]
      rfl

theorem exists_placeholder (n : Nat) :
    ∃ word, (placeholder n).toList = '\\' :: 'v' :: word ∧ '\\' ∉ word := by
  refine ⟨"erbplaceholder\x7b".toList ++ Nat.toDigits 10 n ++ ['\x7d'], ?_, ?_⟩
  · simp [placeholder, String.join, Nat.toString_eq_repr]
  · have digits := Text.not_mem_toDigits (c := '\\') (by decide) n
    simp [digits]

/-- Up to its first backslash a text stays as it is. -/
theorem prefix_of_extract {front : List Char} (plain : '\\' ∉ front) {n : Nat} {cs : List Char}
    (starts : front <+: (extract n cs).1) : front <+: cs := by
  induction front generalizing cs with
  | nil => exact List.nil_prefix
  | cons a front ih =>
    cases cs with
    | nil => rwa [extract] at starts
    | cons c cs =>
      rw [extract_cons] at starts
      split at starts
      next body used found =>
        obtain ⟨word, placed, -⟩ := exists_placeholder n
        rw [placed] at starts
        obtain rfl := (List.cons_prefix_cons.mp starts).1
        exact absurd List.mem_cons_self plain
      next =>
        obtain ⟨rfl, behind⟩ := List.cons_prefix_cons.mp starts
        exact List.cons_prefix_cons.mpr ⟨rfl, ih (mt (List.mem_cons_of_mem a) plain) behind⟩

theorem infix_of_append {first : Char} {word text rest : List Char} (plain : first ∉ word)
    (inside : first :: rest <:+: word ++ text) : first :: rest <:+: text := by
  induction word with
  | nil => exact inside
  | cons c word ih =>
    obtain ⟨other, plain⟩ := not_or.mp (mt List.mem_cons.mpr plain)
    obtain starts | later := List.infix_cons_iff.mp inside
    · exact absurd (List.cons_prefix_cons.mp starts).1 other
    · exact ih plain later

/-- Placeholders make no other command. -/
theorem infix_of_extract {first : Char} {rest : List Char} (other : first ≠ 'v')
    (plain : '\\' ∉ first :: rest) {n : Nat} {cs : List Char}
    (inside : '\\' :: first :: rest <:+: (extract n cs).1) : '\\' :: first :: rest <:+: cs := by
  induction bound : cs.length using Nat.strong_induction_on generalizing cs n with
  | _ size ih =>
    cases cs with
    | nil => rwa [extract] at inside
    | cons c cs =>
      rw [List.length_cons] at bound
      rw [extract_cons] at inside
      split at inside
      next body used found =>
        obtain ⟨word, placed, solid⟩ := exists_placeholder n
        have later :
            '\\' :: first :: rest <:+: (extract (n + 1) (cs.drop ("verb".length + used))).1 := by
          rw [placed] at inside
          obtain starts | later := List.infix_cons_iff.mp inside
          · exact absurd (List.cons_prefix_cons.mp (List.cons_prefix_cons.mp starts).2).1 other
          · have solid' : '\\' ∉ 'v' :: word := by simp [solid]
            exact infix_of_append solid' later
        have shorter : (cs.drop ("verb".length + used)).length < size := by
          rw [← bound, List.length_drop]
          omega
        exact (ih _ shorter later rfl).trans ((List.drop_suffix _ _).isInfix.trans
          (List.suffix_cons _ _).isInfix)
      next =>
        obtain starts | later := List.infix_cons_iff.mp inside
        · obtain ⟨rfl, behind⟩ := List.cons_prefix_cons.mp starts
          exact (List.cons_prefix_cons.mpr ⟨rfl, prefix_of_extract plain behind⟩).isInfix
        · exact List.infix_cons (ih cs.length (by omega) later rfl)

open Text (returned LineFree)

/-- A span stands on one line and ends in its fence. -/
theorem IsSpan.line {span body : List Char} (isSpan : IsSpan span body) :
    '\n' ∉ span ∧ span.getLast? ≠ some '\r' := by
  obtain ⟨star, fence, ⟨starred, fenced, -, line, -⟩, rfl⟩ := isSpan
  have notFeed : '\n' ≠ fence := by rintro rfl; cases fenced
  have notReturn : fence ≠ '\r' := by rintro rfl; cases fenced
  constructor
  · rcases starred with rfl | rfl <;> simp [line, notFeed]
  · have last : "\\verb".toList ++ (star ++ fence :: (body ++ [fence])) =
        "\\verb".toList ++ (star ++ fence :: body) ++ [fence] := by simp
    rw [last, List.getLast?_concat]
    simpa using notReturn

theorem spanAt?_returned {c : Char} (other : c ≠ '\n') (cs : List Char) :
    spanAt? c (returned cs) = spanAt? c cs := by
  have whole := Text.returned_cons other cs
  refine Option.ext fun ⟨body, used⟩ => ?_
  rw [spanAt?_eq_some_iff, spanAt?_eq_some_iff, ← whole]
  constructor
  · rintro ⟨span, more, isSpan, split, length⟩
    obtain ⟨line, ends⟩ := isSpan.line
    obtain ⟨more', split'⟩ := Text.prefix_of_prefix_returned line ends ⟨more, split.symm⟩
    exact ⟨span, more', isSpan, split'.symm, length⟩
  · rintro ⟨span, more, isSpan, split, length⟩
    refine ⟨span, returned more, isSpan, ?_, length⟩
    rw [split, Text.returned_append, Text.returned_eq_self isSpan.line.1]

theorem free_placeholder (n : Nat) : LineFree (placeholder n).toList := by
  constructor <;> simp [placeholder, String.join, Nat.toString_eq_repr, Text.not_mem_toDigits]

/-- The same spans give way to the same placeholders. -/
theorem extract_returned (n : Nat) (cs : List Char) :
    extract n (returned cs) = (returned (extract n cs).1, (extract n cs).2) := by
  induction size : cs.length using Nat.strong_induction_on generalizing cs n with
  | _ size ih =>
    cases cs with
    | nil => simp [extract]
    | cons c cs =>
      rw [List.length_cons] at size
      by_cases feed : c = '\n'
      · subst feed
        rw [Text.returned_feed, extract_cons, spanAt?_eq_none (by simp), extract_cons,
          spanAt?_eq_none (by simp), ih cs.length (by omega) n cs rfl, extract_cons,
          spanAt?_eq_none (by simp)]
        rfl
      · rw [Text.returned_cons feed, extract_cons, extract_cons, spanAt?_returned feed]
        split
        next body used found =>
          obtain ⟨span, more, isSpan, split, length⟩ := spanAt?_eq_some_iff.mp found
          have length' : span.length = "verb".length + used + 1 := by
            rw [length, Nat.add_comm 5 used, Nat.add_comm "verb".length]
            rfl
          have behind : cs.drop ("verb".length + used) = more := by
            have dropped := congrArg (List.drop span.length) split
            rwa [List.drop_left, length', List.drop_succ_cons] at dropped
          have behind' : (returned cs).drop ("verb".length + used) = returned more := by
            have dropped := congrArg (List.drop span.length ∘ returned) split
            simp only [Function.comp_apply, Text.returned_append, Text.returned_cons feed,
              Text.returned_eq_self isSpan.line.1] at dropped
            rwa [List.drop_left, length', List.drop_succ_cons] at dropped
          have shorter : more.length < cs.length + 1 := by
            rw [← behind, List.length_drop]
            omega
          dsimp only
          rw [behind, behind', ih _ (size ▸ shorter) (n + 1) more rfl, Text.returned_append,
            (free_placeholder n).returned]
        next => rw [ih cs.length (by omega) n cs rfl, Text.returned_cons feed]

theorem preprocess_withReturns (kept : List String) (tex : String) :
    preprocess kept (Text.withReturns tex) =
      (Text.withReturns (preprocess kept tex).1, (preprocess kept tex).2) := by
  simp only [preprocess, Text.toList_withReturns, extract_returned, Text.withReturns_ofList]

theorem bare_extract {n : Nat} {cs : List Char} (bare : '\r' ∉ cs) : '\r' ∉ (extract n cs).1 := by
  induction size : cs.length using Nat.strong_induction_on generalizing cs n with
  | _ size ih =>
    cases cs with
    | nil => simp [extract]
    | cons c cs =>
      rw [List.length_cons] at size
      obtain ⟨other, bare⟩ := List.ne_and_not_mem_of_not_mem_cons bare
      rw [extract_cons]
      split
      next body used found =>
        have behind : '\r' ∉ (extract (n + 1) (cs.drop ("verb".length + used))).1 :=
          ih _ (by rw [List.length_drop]; omega) (mt List.mem_of_mem_drop bare) rfl
        exact mt List.mem_append.mp fun member => member.elim (free_placeholder n).1 behind
      next => exact List.not_mem_cons_of_ne_of_not_mem other (ih cs.length (by omega) bare rfl)

theorem bare_preprocess {kept : List String} {tex : String} (bare : '\r' ∉ tex.toList) :
    '\r' ∉ (preprocess kept tex).1.toList := by
  simp only [preprocess, String.toList_ofList]
  exact bare_extract bare

end Quire.Verbs
