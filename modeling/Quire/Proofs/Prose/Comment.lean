import Quire.Proofs.Prose.Escaped
import Quire.Proofs.Prose.Returns
import Quire.Proofs.Text.Cut

/-! Comments of running text. Only the end of math or of a group is looked for behind a comment;
where the scan comes to a comment, it has found all those in front. So what it writes does not
depend on what stands behind the first comment that it comes to, and the comment is not missed.
White space at the end of a text that can be read is only written. Main statements: `convert_ahead`
and `convert_blank`. -/
namespace Quire.Prose

def isStop (c : Char) : Bool := c == '%' || Text.isBlank c

theorem isAlpha_of_isStop {s : Char} (stop : isStop s = true) : s.isAlpha = false := by
  by_contra alpha
  have bounds : 65 ≤ s.toNat ∧ s.toNat ≤ 90 ∨ 97 ≤ s.toNat ∧ s.toNat ≤ 122 := by
    rcases Bool.or_eq_true_iff.mp (eq_true_of_ne_false alpha) with upper | lower
    · exact .inl ⟨(of_decide_eq_true upper).1, (of_decide_eq_true upper).2⟩
    · obtain ⟨least, most⟩ := Bool.and_eq_true_iff.mp lower
      exact .inr ⟨of_decide_eq_true least, of_decide_eq_true most⟩
  rcases Bool.or_eq_true_iff.mp stop with percent | blank
  · obtain rfl := eq_of_beq percent
    exact absurd bounds (by decide)
  · simp only [Text.isBlank, Bool.or_eq_true, Bool.and_eq_true, decide_eq_true_eq, beq_iff_eq]
      at blank
    omega

def Stops (tail : List Char) : Prop := ∀ s ∈ tail.head?, isStop s = true

theorem stops_comment (rest : List Char) : Stops ('%' :: rest) := by
  rintro s ⟨⟩
  rfl

theorem stops_blank {gap : List Char} (blank : gap.all Text.isBlank = true) : Stops gap :=
  fun s first => Bool.or_eq_true_iff.mpr
    (.inr (List.all_eq_true.mp blank s (List.mem_of_mem_head? first)))

theorem Stops.of_prefix {tail rest : List Char} (stops : Stops rest) (shorter : tail <+: rest) :
    Stops tail := by
  obtain ⟨more, rfl⟩ := shorter
  intro s first
  exact stops s (by rw [List.head?_append, Option.mem_def.mp first]; rfl)

theorem Stops.takeWhile {tail : List Char} (stops : Stops tail) {p : Char → Bool}
    (words : ∀ s, isStop s = true → p s = false) (cs : List Char) :
    (cs ++ tail).takeWhile p = cs.takeWhile p := by
  cases tail with
  | nil => rw [List.append_nil]
  | cons s tail => exact Text.takeWhile_append_stop (words s (stops s rfl)) cs tail

/-- Characters of words that are no letters. -/
theorem ne_of_isStop {s : Char} (stop : isStop s = true) :
    ∀ c ∈ "\x7b\x7d()\\$'\"\x60=~".toList, c ≠ s := by
  have solid : ∀ c ∈ "\x7b\x7d()\\$'\"\x60=~".toList, isStop c = false := by decide
  rintro c member rfl
  rw [solid c member] at stop
  cases stop

section Stop
variable {s : Char} {target : Target} {c : Char} {cs tail rest : List Char}

theorem isBase_stop {written more : List Char} {base : Char} (stop : isStop s = true) :
    Accent.IsBase written base (more ++ s :: rest) ↔ Accent.IsBase written base more := by
  have letter : ((more ++ s :: rest).head?.map Char.isAlpha).getD false =
      (more.head?.map Char.isAlpha).getD false := by
    cases more with
    | nil => simp [isAlpha_of_isStop stop]
    | cons d more => rfl
  constructor
  all_goals
    intro isBase
    cases isBase with
    | bare brace slash => exact .bare brace slash _
    | braced brace => exact .braced brace _
    | dotlessBraced => exact .dotlessBraced _
    | dotless apart => exact .dotless (by simpa only [letter] using apart)

/-- An accent ends in front of a comment and of white space. -/
theorem decode?_stops (stops : Stops tail) (cs : List Char) :
    Accent.decode? (cs ++ tail) = Accent.decode? cs := by
  cases tail with
  | nil => rw [List.append_nil]
  | cons s rest =>
    have stop := stops s rfl
    refine Option.ext fun ⟨letter, used⟩ => ?_
    simp only [Accent.decode?_eq_some_iff]
    constructor
    · rintro ⟨mark, base, written, more, front, isBase, composed, rfl⟩
      have marks : "'\"\x60=~".toList ⊆ "\x7b\x7d()\\$'\"\x60=~".toList := by decide
      have marked := ne_of_isStop stop _ (marks (Accent.letters_of_compose? composed).1)
      have lettered : base ≠ s := by
        rintro rfl
        have alpha := Accent.isAlpha_of_compose? composed
        rw [isAlpha_of_isStop stop] at alpha
        cases alpha
      have opening := ne_of_isStop stop '\x7b' (by decide)
      have closing := ne_of_isStop stop '\x7d' (by decide)
      have slash := ne_of_isStop stop '\\' (by decide)
      have absent : s ∉ mark :: written := by
        cases isBase <;>
          simp [marked.symm, lettered.symm, opening.symm, closing.symm, slash.symm]
      rw [← List.cons_append] at front
      obtain ⟨more', rfl, rfl⟩ := Text.behind_word absent front.symm
      exact ⟨mark, base, written, more', rfl, (isBase_stop stop).mp isBase, composed, rfl⟩
    · rintro ⟨mark, base, written, more, rfl, isBase, composed, rfl⟩
      exact ⟨mark, base, written, more ++ s :: rest, by simp, (isBase_stop stop).mpr isBase,
        composed, rfl⟩

/-- The rows with a comment sign or white space are escapes of that character. -/
theorem stop_rows (target : Target) : ∀ row ∈ table target, ∀ s ∈ row.1.toList, isStop s = true →
    row.1.toList = ['\\', s] := by
  cases target <;> decide

/-- A row of the table ends in front of a comment and of white space. -/
theorem entry?_stops (stops : Stops tail) (solid : c = '\\' → cs ≠ []) :
    entry? target c (cs ++ tail) = entry? target c cs := by
  have same : ∀ row ∈ table target,
      row.1.toList.isPrefixOf (c :: (cs ++ tail)) = row.1.toList.isPrefixOf (c :: cs) := by
    intro row listed
    rw [Bool.eq_iff_iff, List.isPrefixOf_iff_prefix, List.isPrefixOf_iff_prefix]
    refine ⟨fun ⟨more, front⟩ => ?_, fun starts => starts.trans (List.prefix_append _ tail)⟩
    cases tail with
    | nil => exact ⟨more, by rw [front, List.append_nil]⟩
    | cons s rest =>
      by_cases member : s ∈ row.1.toList
      · have written := stop_rows target row listed s member (stops s rfl)
        rw [written] at front ⊢
        obtain ⟨rfl, next⟩ := List.cons.inj front
        obtain ⟨d, cs, rfl⟩ := List.exists_cons_of_ne_nil (solid rfl)
        obtain ⟨rfl, -⟩ := List.cons.inj next
        exact ⟨cs, rfl⟩
      · rw [← List.cons_append] at front
        obtain ⟨more', longer, -⟩ := Text.behind_word member front
        exact ⟨more', longer.symm⟩
  rw [ entry?, entry?, List.find?_congr same]

end Stop

section Math
variable {target : Target} {c : Char} {cs tail rest text : List Char} {used : Nat}

/-- Math that ends in a text does not depend on what stands behind the text. -/
theorem math?_cut (near : ∀ found ∈ math? target c (cs ++ rest), found.2 ≤ cs.length)
    (dollar : rest.head? ≠ some '$') (paren : rest.head? ≠ some '(') (shorter : tail <+: rest) :
    math? target c (cs ++ tail) = math? target c (cs ++ rest) := by
  by_cases sign : c = '$'
  · subst sign
    by_cases double : cs.head? = some '$'
    · obtain ⟨cs, rfl⟩ := List.head?_eq_some_iff.mp double
      refine congrArg (Option.map _) (Text.before?_cut (fun b found => ?_) shorter)
      have inside := near _ (Option.mem_map_of_mem _ found)
      simp only [List.length_cons, List.length_nil] at inside ⊢
      omega
    · rw [math?_single (Text.head?_append_ne double dollar shorter)]
      rw [math?_single (Text.head?_append_ne double dollar List.prefix_rfl)] at near ⊢
      rw [Text.before?_cut (fun b found => near _ (Option.mem_map_of_mem _ found)) shorter]
  by_cases slash : c = '\\'
  · subst slash
    by_cases opening : cs.head? = some '('
    · obtain ⟨cs, rfl⟩ := List.head?_eq_some_iff.mp opening
      refine congrArg (Option.map _) (Text.before?_cut (fun b found => ?_) shorter)
      have inside := near _ (Option.mem_map_of_mem _ found)
      simp only [List.length_cons, List.length_nil] at inside ⊢
      omega
    · rw [math?_slash (Text.head?_append_ne opening paren shorter),
        math?_slash (Text.head?_append_ne opening paren List.prefix_rfl)]
  · rw [math?_eq_none_of_ne sign slash, math?_eq_none_of_ne sign slash]

/-- Math ends in a dollar sign or in a parenthesis. -/
theorem close_of_math? (math : math? target c cs = some (text, used)) :
    ∃ front, ∃ d ∈ ['$', ')'], front ++ [d] <+: cs ∧ used = front.length + 1 := by
  unfold math? at math
  split at math
  next rest =>
    obtain ⟨tex, found, same⟩ := Option.map_eq_some_iff.mp math
    cases same
    refine ⟨'$' :: (tex ++ ['$']), '$', by simp, ?_, by simp⟩
    simpa using Text.prefix_of_before? found
  next =>
    obtain ⟨tex, found, same⟩ := Option.map_eq_some_iff.mp math
    cases same
    exact ⟨tex, '$', by simp, Text.prefix_of_before? found, rfl⟩
  next rest =>
    obtain ⟨tex, found, same⟩ := Option.map_eq_some_iff.mp math
    cases same
    refine ⟨'(' :: (tex ++ ['\\']), ')', by simp, ?_, by simp⟩
    simpa using Text.prefix_of_before? found
  next => cases math

/-- Math does not end in white space. -/
theorem math?_blank {gap : List Char} (blank : gap.all Text.isBlank = true) :
    math? target c (cs ++ gap) = math? target c cs := by
  have solid : ∀ d ∈ ['$', '(', ')'], d ∉ gap := by
    have solid : ∀ d ∈ ['$', '(', ')'], Text.isBlank d = false := by decide
    exact fun d close => Text.not_mem_of_all blank (solid d close)
  have closes : ['$', ')'] ⊆ ['$', '(', ')'] := by decide
  have near : ∀ found ∈ math? target c (cs ++ gap), found.2 ≤ cs.length := by
    intro found math
    obtain ⟨front, d, close, ⟨more, whole⟩, same⟩ := close_of_math? math
    rw [same, Nat.succ_le_iff]
    by_contra behind
    have last : (cs ++ gap)[front.length]? = some d := by simp [← whole]
    rw [List.getElem?_append_right (Nat.not_lt.mp behind)] at last
    exact solid d (closes close) (List.mem_of_getElem? last)
  have apart (d : Char) (close : d ∈ ['$', '(', ')']) : gap.head? ≠ some d := fun first =>
    solid d close (List.mem_of_mem_head? first)
  rw [← math?_cut near (apart '$' (by simp)) (apart '(' (by simp)) List.nil_prefix, List.append_nil]

end Math

section Group
variable {depth n : Nat} {cs tail rest : List Char}

theorem length_of_groupLength? (found : groupLength? depth cs = some n) : n < cs.length := by
  have brace := head?_of_groupLength? found
  rw [List.head?_drop] at brace
  exact (List.getElem?_eq_some_iff.mp brace).1

/-- A group that ends in a text does not depend on what stands behind the text. -/
theorem groupLength?_append_iff (inside : n < cs.length) :
    groupLength? depth (cs ++ rest) = some n ↔ groupLength? depth cs = some n := by
  have step {a b : Option Nat} {length k n : Nat} (inside : n < length + k)
      (same : ∀ {n}, n < length → (a = some n ↔ b = some n)) :
      a.map (· + k) = some n ↔ b.map (· + k) = some n := by
    simp only [Option.map_eq_some_iff]
    exact exists_congr fun m => and_congr_left fun eq => same (by omega)
  fun_induction groupLength? depth cs generalizing n with
  | case1 => cases inside
  | case2 depth =>
    obtain rfl : n = 0 := by simpa using inside
    cases rest <;> simp [groupLength?]
  | case3 depth c cs ih =>
    simp only [List.cons_append, groupLength?]
    exact step inside ih
  | case4 depth cs _ _ ih =>
    rw [List.cons_append, groupLength?_cons (by decide), if_pos rfl]
    exact step inside ih
  | case5 => rw [List.cons_append, groupLength?_cons (by decide), if_neg (by decide), if_pos rfl]
  | case6 cs _ _ _ depth ih =>
    rw [List.cons_append, groupLength?_cons (by decide), if_neg (by decide), if_pos rfl]
    exact step inside ih
  | case7 depth c cs single pair opens closes ih =>
    have slash : c ≠ '\\' := by
      rintro rfl
      cases cs with
      | nil => exact single rfl rfl
      | cons d cs => exact pair d cs rfl rfl
    rw [List.cons_append, groupLength?_cons slash, if_neg opens, if_neg closes]
    exact step inside ih

theorem groupLength?_cut (near : ∀ n ∈ groupLength? depth (cs ++ rest), n < cs.length)
    (shorter : tail <+: rest) :
    groupLength? depth (cs ++ tail) = groupLength? depth (cs ++ rest) := by
  cases found : groupLength? depth (cs ++ rest) with
  | none =>
    obtain ⟨more, rfl⟩ := shorter
    refine Option.eq_none_iff_forall_ne_some.mpr fun n inner => ?_
    have whole : groupLength? depth (cs ++ tail ++ more) = some n :=
      (groupLength?_append_iff (length_of_groupLength? inner)).mpr inner
    rw [List.append_assoc, found] at whole
    cases whole
  | some n =>
    have inside := near n found
    exact (groupLength?_append_iff inside).mpr ((groupLength?_append_iff inside).mp found)

end Group

/-- How many characters a step takes behind the first. -/
def Action.used : Action → Nat
  | put _ used => used
  | wrapGroup _ skip size => skip + size + 1
  | stuck => 0

section Command
variable {wrap : Option Wrap} {n : Nat} {cs more tail rest : List Char}

theorem named_cut (near : (named wrap n (more ++ rest)).used ≤ n + more.length)
    (plain : rest.head? ≠ some '\x7b') (shorter : tail <+: rest) :
    named wrap n (more ++ tail) = named wrap n (more ++ rest) := by
  by_cases brace : more.head? = some '\x7b'
  · obtain ⟨group, rfl⟩ := List.head?_eq_some_iff.mp brace
    cases wrap with
    | none => rfl
    | some wrap =>
      have same : groupLength? 0 (group ++ tail) = groupLength? 0 (group ++ rest) := by
        refine groupLength?_cut (fun size found => ?_) shorter
        simp only [named, List.cons_append, Option.mem_def.mp found, Action.used,
          List.length_cons] at near
        omega
      simp only [named, List.cons_append, same]
  · rw [named_of_ne (Text.head?_append_ne brace plain shorter),
      named_of_ne (Text.head?_append_ne brace plain List.prefix_rfl)]

/-- A command that ends in front of a comment does not depend on the comment. -/
theorem command_cut (near : (command (cs ++ '%' :: rest)).used ≤ cs.length)
    (shorter : tail <+: '%' :: rest) : command (cs ++ tail) = command (cs ++ '%' :: rest) := by
  obtain ⟨name, blanks, more, rfl, name_eq, blanks_eq⟩ := exists_command cs
  have run (p : Char → Bool) (stop : p '%' = false) (front : List Char) :
      (front ++ '%' :: rest).takeWhile p = front.takeWhile p ∧
        (front ++ tail).takeWhile p = front.takeWhile p := by
    refine ⟨Text.takeWhile_append_stop stop front rest, ?_⟩
    obtain rfl | ⟨tail, rfl, -⟩ := List.prefix_cons_iff.mp shorter
    · rw [List.append_nil]
    · exact Text.takeWhile_append_stop stop front tail
  have named_ := run Char.isAlpha rfl (name ++ (blanks ++ more))
  have spaced := run (· == ' ') rfl (blanks ++ more)
  rw [name_eq] at named_
  rw [blanks_eq] at spaced
  simp only [List.append_assoc] at named_ spaced near ⊢
  rw [command_append named_.1 spaced.1] at near ⊢
  rw [command_append named_.2 spaced.2]
  split
  · rfl
  next kept =>
    rw [if_neg kept] at near
    refine named_cut ?_ (by simp) shorter
    simpa [Nat.add_assoc] using near

end Command

/-- The text in front of the first comment that the scan comes to. The scan does not come to the
comments of a group that is wrapped; these belong to the text of the group. -/
def ahead? (target : Target) : List Char → Option (List Char)
  | [] => none
  | c :: cs =>
    if c = '%' then some []
    else match action target c cs with
      | .put _ used => (ahead? target (cs.drop used)).map (c :: cs.take used ++ ·)
      | .wrapGroup _ skip size =>
        (ahead? target (cs.drop (skip + size + 1))).map (c :: cs.take (skip + size + 1) ++ ·)
      | .stuck => none
termination_by cs => cs.length
decreasing_by all_goals simp only [List.length_drop, List.length_cons]; omega

/-- Where the same math, accent and row fit in front of two texts, or none of them, the steps there
only differ as commands. -/
theorem action_along {target : Target} {c : Char} {cs ds : List Char} {R : Action → Action → Prop}
    (percent : c ≠ '%') (math : math? target c ds = math? target c cs)
    (accent : Accent.decode? ds = Accent.decode? cs)
    (row : entry? target c ds = entry? target c cs)
    (put : ∀ text used, R (.put text used) (.put text used))
    (commanded : action target c cs = command cs → R (command cs) (command ds)) :
    R (action target c cs) (action target c ds) := by
  unfold action at commanded ⊢
  rw [if_neg percent] at commanded ⊢
  rw [if_neg percent, math, accent, row]
  split
  · exact put _ _
  next math =>
    rw [math] at commanded
    split
    · exact put _ _
    next accent =>
      rw [accent] at commanded
      split
      · exact put _ _
      next row =>
        rw [row] at commanded
        split
        next slash => exact commanded (if_pos slash)
        · exact put _ _

section Ahead
variable {target : Target} {c : Char} {cs tail rest : List Char}

/-- A step that ends in front of a comment does not depend on the comment. -/
theorem action_cut (percent : c ≠ '%')
    (near : (action target c (cs ++ '%' :: rest)).used ≤ cs.length)
    (shorter : tail <+: '%' :: rest) :
    action target c (cs ++ tail) = action target c (cs ++ '%' :: rest) := by
  have solid : c = '\\' → cs ≠ [] := by
    rintro rfl rfl
    rw [List.nil_append, action_symbol target (by decide)] at near
    exact absurd near (Nat.not_succ_le_zero 0)
  have math : math? target c (cs ++ tail) = math? target c (cs ++ '%' :: rest) := by
    refine math?_cut (fun found math => ?_) (by simp) (by simp) shorter
    rwa [action_math percent math] at near
  have stops := stops_comment rest
  have accent : Accent.decode? (cs ++ tail) = Accent.decode? (cs ++ '%' :: rest) := by
    rw [decode?_stops stops, decode?_stops (stops.of_prefix shorter)]
  have row : entry? target c (cs ++ tail) = entry? target c (cs ++ '%' :: rest) := by
    rw [entry?_stops stops solid, entry?_stops (stops.of_prefix shorter) solid]
  refine action_along (R := fun act act' => act' = act) percent math accent row (fun _ _ => rfl)
    fun commanded => ?_
  rw [commanded] at near
  exact command_cut near shorter

theorem action_taken {taken front : List Char} {act : Action} (percent : c ≠ '%')
    (acts : action target c (taken ++ (front ++ '%' :: rest)) = act)
    (within : act.used ≤ taken.length) (shorter : tail <+: '%' :: rest) :
    action target c (taken ++ (front ++ tail)) = act := by
  rw [← acts] at within
  rw [← acts, ← List.append_assoc, ← List.append_assoc]
  refine action_cut percent ?_ shorter
  rw [List.append_assoc, List.length_append]
  exact Nat.le_add_right_of_le within

/-- A comment on the last line takes all that is left. -/
theorem convert_comment (line : '\n' ∉ cs) : convert target ('%' :: cs) = .ok [] := by
  have length : commentLength cs = cs.length := by
    rw [commentLength, Text.before?_singleton_eq_none_iff.mpr line]
  have acts : action target '%' cs = .put [] (commentLength cs) := if_pos rfl
  rw [convert_put acts, length, List.drop_length, convert]
  rfl

theorem convert_wrapGroup {wrap : Wrap} {skip size : Nat}
    (acts : action target c cs = .wrapGroup wrap skip size) :
    convert target (c :: cs) = (do
      let inner ← convert target ((cs.drop skip).take size)
      let rest ← convert target (cs.drop (skip + size + 1))
      return wrap.apply target inner ++ rest) := by
  rw [convert, acts]

theorem exists_taken {used : Nat} {front : List Char} (eq : cs.drop used = front ++ '%' :: rest) :
    ∃ taken, cs = taken ++ (front ++ '%' :: rest) ∧ cs.take used = taken ∧
      taken.length = used := by
  refine ⟨cs.take used, by rw [← eq, List.take_append_drop], rfl, ?_⟩
  refine List.length_take_of_le (Nat.le_of_not_lt fun beyond => ?_)
  rw [List.drop_eq_nil_of_le beyond.le] at eq
  simp at eq

/-- The text in front of a comment. What the scan writes does not depend on the comment, nor on
whether it is there. -/
theorem convert_ahead {front : List Char} (found : ahead? target cs = some front)
    (line : '\n' ∉ cs) : ∃ behind, cs = front ++ '%' :: behind ∧
      ∀ tail, tail <+: '%' :: behind → convert target (front ++ tail) = convert target cs := by
  fun_induction ahead? target cs generalizing front with
  | case1 => cases found
  | case2 cs =>
    obtain rfl := Option.some.inj found
    obtain ⟨-, line⟩ := not_or.mp (mt List.mem_cons.mpr line)
    refine ⟨cs, rfl, fun tail shorter => ?_⟩
    rw [convert_comment line]
    obtain rfl | ⟨tail, rfl, inside⟩ := List.prefix_cons_iff.mp shorter
    · rw [List.append_nil, convert]
    · exact convert_comment fun member => line (inside.subset member)
  | case3 c cs percent text used acts ih =>
    obtain ⟨front, later, rfl⟩ := Option.map_eq_some_iff.mp found
    obtain ⟨behind, rest, same⟩ := ih later fun member =>
      line (List.mem_cons_of_mem c (List.mem_of_mem_drop member))
    rw [rest] at same
    obtain ⟨taken, rfl, taken_eq, rfl⟩ := exists_taken rest
    rw [taken_eq]
    refine ⟨behind, by simp, fun tail shorter => ?_⟩
    have acts' := action_taken percent acts (Nat.le_refl _) shorter
    rw [List.cons_append, List.cons_append, List.append_assoc, convert_put acts', convert_put acts,
      rest, ← same tail shorter, List.drop_left]
  | case4 c cs percent wrap skip size acts ih =>
    obtain ⟨front, later, rfl⟩ := Option.map_eq_some_iff.mp found
    obtain ⟨behind, rest, same⟩ := ih later fun member =>
      line (List.mem_cons_of_mem c (List.mem_of_mem_drop member))
    rw [rest] at same
    obtain ⟨taken, rfl, taken_eq, length⟩ := exists_taken rest
    rw [taken_eq]
    refine ⟨behind, by simp, fun tail shorter => ?_⟩
    have inner (more : List Char) :
        ((taken ++ more).drop skip).take size = (taken.drop skip).take size := by
      rw [List.drop_append_of_le_length (by omega), List.take_append_of_le_length (by simp; omega)]
    have acts' := action_taken percent acts length.ge shorter
    rw [List.cons_append, List.cons_append, List.append_assoc, convert_wrapGroup acts',
      convert_wrapGroup acts, rest, ← same tail shorter, inner, inner, List.drop_left' length]
  | case5 => cases found

end Ahead

/-- Two steps in front of a text, perhaps with more text behind it, that do the same and go on at
the same place of the text. -/
inductive Action.Beside (cs : List Char) : Action → Action → Prop
  | put {text : List Char} {used used' : Nat} (same : cs.drop used' = cs.drop used) :
      Beside cs (.put text used) (.put text used')
  | wrapGroup {wrap : Wrap} {skip size : Nat} (inside : skip + size < cs.length) :
      Beside cs (.wrapGroup wrap skip size) (.wrapGroup wrap skip size)

section Blank
variable {target : Target} {c : Char} {cs gap out : List Char}

theorem exists_of_named {wrap : Option Wrap} {n : Nat} {more : List Char}
    (moves : named wrap n more ≠ .stuck) : ∃ wrap' group size, wrap = some wrap' ∧
      more = '\x7b' :: group ∧ groupLength? 0 group = some size := by
  unfold named at moves
  split at moves
  next wrap group =>
    split at moves
    next size found => exact ⟨wrap, group, size, rfl, rfl, found⟩
    next => exact absurd rfl moves
  next => exact absurd rfl moves

/-- White space behind a command is at most taken with it. -/
theorem beside_command (blank : gap.all Text.isBlank = true) (moves : command cs ≠ .stuck) :
    Action.Beside cs (command cs) (command (cs ++ gap)) := by
  obtain ⟨name, blanks, more, rfl, name_eq, blanks_eq⟩ := exists_command cs
  have name_eq' : (name ++ (blanks ++ (more ++ gap))).takeWhile Char.isAlpha = name := by
    rwa [← List.append_assoc blanks, ← List.append_assoc name,
      (stops_blank blank).takeWhile @isAlpha_of_isStop]
  rw [command_append name_eq blanks_eq] at moves ⊢
  by_cases ended : more = []
  · subst ended
    have spaced : (blanks ++ gap).takeWhile (· == ' ') = blanks ++ gap.takeWhile (· == ' ') := by
      rw [List.append_nil] at blanks_eq
      rw [List.takeWhile_append, if_pos (congrArg _ blanks_eq)]
    have known : dropped.contains (.ofList name) = true := by
      by_contra unknown
      rw [if_neg unknown, named_of_ne (by simp)] at moves
      exact moves rfl
    obtain ⟨behind, split⟩ := List.takeWhile_prefix (· == ' ') (l := gap)
    rw [List.nil_append] at name_eq'
    rw [if_pos known, List.append_nil, List.append_assoc, ← split, ← List.append_assoc blanks,
      command_append, if_pos known]
    · refine .put ?_
      rw [List.drop_eq_nil_of_le (by simp), List.drop_eq_nil_of_le (by simp)]
    · rwa [List.append_assoc, split]
    · rwa [List.append_assoc, split]
  · have blanks_eq' : (blanks ++ (more ++ gap)).takeWhile (· == ' ') = blanks := by
      rw [← List.append_assoc, List.takeWhile_append, if_neg, blanks_eq]
      simpa [blanks_eq] using ended
    rw [List.append_assoc, List.append_assoc, command_append name_eq' blanks_eq']
    split
    · exact .put rfl
    next unknown =>
      rw [if_neg unknown] at moves
      obtain ⟨wrap, group, size, found, rfl, closed⟩ := exists_of_named moves
      have inside := length_of_groupLength? closed
      have closed' : groupLength? 0 (group ++ gap) = some size :=
        (groupLength?_append_iff inside).mpr closed
      simp only [found, named, List.cons_append, closed, closed']
      exact .wrapGroup (by simp; omega)

/-- White space behind a step that the scan can make changes nothing about it. -/
theorem beside_action (blank : gap.all Text.isBlank = true) (line : '\n' ∉ cs ++ gap)
    (moves : action target c cs ≠ .stuck) :
    Action.Beside cs (action target c cs) (action target c (cs ++ gap)) := by
  by_cases percent : c = '%'
  · subst percent
    have length (more : List Char) (line : '\n' ∉ more) :
        action target '%' more = .put [] more.length := by
      rw [action, if_pos rfl, commentLength, Text.before?_singleton_eq_none_iff.mpr line]
    rw [length cs fun member => line (List.mem_append_left gap member), length _ line]
    refine .put ?_
    rw [List.drop_length, List.drop_eq_nil_of_le (by simp)]
  have solid : c = '\\' → cs ≠ [] := by
    rintro rfl rfl
    cases target <;> exact moves rfl
  have accent := decode?_stops (stops_blank blank) cs
  have row : entry? target c (cs ++ gap) = entry? target c cs :=
    entry?_stops (stops_blank blank) solid
  refine action_along percent (math?_blank blank) accent row (fun _ _ => .put rfl)
    fun commanded => ?_
  rw [commanded] at moves
  exact beside_command blank moves

theorem beside_put {text : List Char} {used : Nat} (blank : gap.all Text.isBlank = true)
    (line : '\n' ∉ cs ++ gap) (acts : action target c cs = .put text used) :
    ∃ used', action target c (cs ++ gap) = .put text used' ∧ cs.drop used' = cs.drop used := by
  have beside := beside_action blank line (by rw [acts]; nofun)
  rw [acts] at beside
  generalize action target c (cs ++ gap) = act at beside
  cases beside with
  | put same => exact ⟨_, rfl, same⟩

theorem beside_wrapGroup {wrap : Wrap} {skip size : Nat} (blank : gap.all Text.isBlank = true)
    (line : '\n' ∉ cs ++ gap) (acts : action target c cs = .wrapGroup wrap skip size) :
    action target c (cs ++ gap) = .wrapGroup wrap skip size ∧ skip + size < cs.length := by
  have beside := beside_action blank line (by rw [acts]; nofun)
  rw [acts] at beside
  generalize action target c (cs ++ gap) = act at beside
  cases beside with
  | wrapGroup inside => exact ⟨rfl, inside⟩

theorem convert_gap (blank : gap.all Text.isBlank = true) : convert target gap = .ok gap := by
  induction gap with
  | nil => rw [convert]
  | cons c gap ih =>
    obtain ⟨first, blank⟩ : Text.isBlank c = true ∧ gap.all Text.isBlank = true := by
      simpa using blank
    have solid : ∀ d ∈ "%$\\~<>-\x60'".toList, Text.isBlank d = false := by decide
    have apart : c ∉ "%$\\~<>-\x60'".toList := by
      intro member
      rw [solid c member] at first
      cases first
    have among : '%' ∈ "%$\\~<>-\x60'".toList ∧ '$' ∈ "%$\\~<>-\x60'".toList ∧
        rowChars target ⊆ "%$\\~<>-\x60'".toList ∧
        ligatureChars ⊆ "%$\\~<>-\x60'".toList := by cases target <;> decide
    obtain ⟨percent, dollar, rows, ligatures⟩ := among
    have start := mt (@rows c) apart
    have math : math? target c gap = none :=
      math?_eq_none_of_ne (ne_of_mem_of_not_mem dollar apart).symm (ne_slash start)
    rw [convert_put (action_char (ne_of_mem_of_not_mem percent apart).symm start math
      fun _ => mt (@ligatures c) apart), List.drop_zero, ih blank]
    rfl

/-- White space behind a text that can be read is written behind it, less what a command takes. -/
theorem convert_blank (blank : gap.all Text.isBlank = true) (line : '\n' ∉ cs ++ gap)
    (read : convert target cs = .ok out) : ∃ pad, pad.all Text.isBlank = true ∧
      convert target (cs ++ gap) = .ok (out ++ pad) := by
  fun_induction convert target cs generalizing gap out with
  | case1 =>
    cases read
    exact ⟨gap, blank, convert_gap blank⟩
  | case2 c cs text used acts ih =>
    obtain ⟨out, later, rfl⟩ := exists_of_map_ok read
    rw [List.cons_append, List.mem_cons, not_or] at line
    obtain ⟨used', acts', same⟩ := beside_put blank line.2 acts
    have behind : (cs ++ gap).drop used' = cs.drop used ++ gap.drop (used' - cs.length) := by
      rw [List.drop_append, same]
    have line' : '\n' ∉ cs.drop used ++ gap.drop (used' - cs.length) := fun member =>
      line.2 (List.mem_of_mem_drop (behind ▸ member))
    have blank' : (gap.drop (used' - cs.length)).all Text.isBlank = true :=
      List.all_eq_true.mpr fun d member =>
        List.all_eq_true.mp blank d (List.mem_of_mem_drop member)
    obtain ⟨pad, padded, written⟩ := ih blank' line' later
    refine ⟨pad, padded, ?_⟩
    rw [List.cons_append, convert_put acts', behind, written, List.append_assoc]
    rfl
  | case3 c cs wrap skip size acts ih ih' =>
    obtain ⟨inner, read_inner, read⟩ := exists_of_bind_ok read
    obtain ⟨rest, later, read⟩ := exists_of_bind_ok read
    cases read
    rw [List.cons_append, List.mem_cons, not_or] at line
    obtain ⟨acts', inside⟩ := beside_wrapGroup blank line.2 acts
    have behind : (cs ++ gap).drop (skip + size + 1) = cs.drop (skip + size + 1) ++ gap :=
      List.drop_append_of_le_length inside
    have group : ((cs ++ gap).drop skip).take size = (cs.drop skip).take size := by
      rw [List.drop_append_of_le_length (by omega), List.take_append_of_le_length]
      rw [List.length_drop]
      omega
    obtain ⟨pad, padded, written⟩ :=
      ih' blank (fun member => line.2 (List.mem_of_mem_drop (behind ▸ member))) later
    refine ⟨pad, padded, ?_⟩
    rw [List.cons_append, convert_wrapGroup acts', group, read_inner, behind, written,
      List.append_assoc]
    rfl
  | case4 => cases read

end Blank

end Quire.Prose
