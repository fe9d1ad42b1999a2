import Quire.Proofs.Prose.Accent
import Quire.Proofs.Text.Returns

/-! Running text whose lines end in carriage returns too. It is converted as the text without them
is, and the returns stand in what is written. A comment takes its carriage return along. -/
namespace Quire

open Text (returned returnedLength LineFree)

def TakesLine (cs : List Char) (n : Nat) : Prop :=
  ∃ front, front <+: cs ∧ LineFree front ∧ front.length = n

theorem TakesLine.returnedLength_eq {cs : List Char} {n : Nat} (takes : TakesLine cs n) :
    returnedLength cs n = n := by
  obtain ⟨front, starts, free, rfl⟩ := takes
  rw [Text.returnedLength_of_prefix starts, free.returned]

namespace Accent

theorem IsBase.free {written more : List Char} {mark base letter : Char}
    (isBase : IsBase written base more) (composed : compose? mark base = some letter) :
    LineFree (mark :: written) := by
  obtain ⟨marked, based, -⟩ := letters_of_compose? composed
  have mark_free : LineFree [mark] := by
    constructor <;> intro member <;> obtain rfl := List.mem_singleton.mp member <;>
      exact absurd marked (by decide)
  have base_free : LineFree [base] := by
    constructor <;> intro member <;> obtain rfl := List.mem_singleton.mp member <;>
      exact absurd based (by decide)
  refine @LineFree.append [mark] _ mark_free ?_
  cases isBase with
  | bare => exact base_free
  | braced => exact (show LineFree ['\x7b'] by decide).append (base_free.append (by decide))
  | dotlessBraced | dotless => decide

theorem IsBase.follow {written more more' : List Char} {base : Char}
    (isBase : IsBase written base more)
    (same : (more.head?.map Char.isAlpha).getD false = (more'.head?.map Char.isAlpha).getD false) :
    IsBase written base more' := by
  cases isBase with
  | bare brace slash => exact .bare brace slash more'
  | braced brace => exact .braced brace more'
  | dotlessBraced => exact .dotlessBraced more'
  | dotless apart => exact .dotless (same ▸ apart)

theorem isAlpha_head?_returned (cs : List Char) :
    ((returned cs).head?.map Char.isAlpha).getD false = (cs.head?.map Char.isAlpha).getD false := by
  cases cs with
  | nil => rfl
  | cons c cs =>
    by_cases feed : c = '\n'
    · subst feed
      rfl
    · rw [Text.returned_cons feed]
      rfl

/-- An accent stands on one line. -/
theorem takesLine_decode? {cs : List Char} {letter : Char} {used : Nat}
    (found : decode? cs = some (letter, used)) : TakesLine cs used ∧ letter ≠ '\n' := by
  obtain ⟨mark, base, written, more, rfl, isBase, composed, rfl⟩ := decode?_eq_some_iff.mp found
  exact ⟨⟨mark :: written, List.prefix_append _ _, isBase.free composed, rfl⟩,
    (letters_of_compose? composed).2.2⟩

theorem decode?_returned (cs : List Char) : decode? (returned cs) = decode? cs := by
  refine Option.ext fun ⟨letter, used⟩ => ?_
  rw [decode?_eq_some_iff, decode?_eq_some_iff]
  constructor
  · rintro ⟨mark, base, written, more, whole, isBase, composed, rfl⟩
    have free := isBase.free composed
    have last : (mark :: written).getLast? ≠ some '\r' := fun last => free.1 (List.mem_of_getLast? last)
    obtain ⟨more', rfl⟩ := Text.prefix_of_prefix_returned free.2 last ⟨more, whole.symm⟩
    rw [Text.returned_append, free.returned] at whole
    obtain rfl := List.append_cancel_left whole
    exact ⟨mark, base, written, more', rfl, isBase.follow (isAlpha_head?_returned more'), composed, rfl⟩
  · rintro ⟨mark, base, written, more, rfl, isBase, composed, rfl⟩
    have whole := Text.returned_append (mark :: written) more
    rw [(isBase.free composed).returned] at whole
    exact ⟨mark, base, written, returned more, whole,
      isBase.follow (isAlpha_head?_returned more).symm, composed, rfl⟩

end Accent
namespace Prose

variable {c : Char} {cs : List Char}

theorem rows_free : ∀ row ∈ table .html, LineFree row.1.toList ∧ row.1.toList ≠ [] ∧
    returned row.2.toList = row.2.toList := by
  decide +kernel

theorem entry?_returned (other : c ≠ '\n') (cs : List Char) :
    entry? .html c (returned cs) = entry? .html c cs := by
  have rows : ∀ row ∈ table .html, row.1.toList.isPrefixOf (c :: returned cs) =
      row.1.toList.isPrefixOf (c :: cs) := by
    intro row member
    rw [← Text.returned_cons other, Text.isPrefixOf_returned (rows_free row member).1]
  exact congrArg (Option.map _) (List.find?_congr rows)

theorem takesLine_entry? {text : List Char} {used : Nat}
    (found : entry? .html c cs = some (text, used)) :
    TakesLine cs used ∧ returned text = text := by
  obtain ⟨row, first, same⟩ := Option.map_eq_some_iff.mp found
  obtain ⟨rfl, rfl⟩ := Prod.mk.inj same
  obtain ⟨free, some_, plain⟩ := rows_free row (List.mem_of_find?_eq_some first)
  have starts := List.find?_some first
  dsimp only at starts
  rw [List.isPrefixOf_iff_prefix] at starts
  obtain ⟨a, front, spelled⟩ := List.exists_cons_of_ne_nil some_
  rw [spelled] at starts free
  refine ⟨⟨front, (List.cons_prefix_cons.mp starts).2, free.of_subset (List.subset_cons_self a front), ?_⟩,
    plain⟩
  rw [← String.length_toList, spelled]
  rfl

/-- What is written for the front of a text, and how long that is. -/
def partWithReturns (cs : List Char) (part : List Char × Nat) : List Char × Nat :=
  (returned part.1, returnedLength cs part.2)

theorem upTo_returned {front close rest : List Char} {wrap : List Char → List Char} {k : Nat}
    (front_free : LineFree front) (free : LineFree close) (some_ : close ≠ [])
    (even : ∀ tex, wrap (returned tex) = returned (wrap tex))
    (size : k = front.length + close.length) :
    ((Text.before? close (returned rest)).map fun tex => (wrap tex, tex.length + k)) =
      ((Text.before? close rest).map fun tex => (wrap tex, tex.length + k)).map
        (partWithReturns (front ++ rest)) := by
  rw [Text.before?_returned free some_]
  cases found : Text.before? close rest with
  | none => rfl
  | some tex =>
    have starts : front ++ (tex ++ close) <+: front ++ rest :=
      (List.prefix_append_right_inj front).mpr (Text.prefix_of_before? found)
    have used : tex.length + k = (front ++ (tex ++ close)).length := by
      simp [size]
      omega
    have used' : (returned tex).length + k = (returned (front ++ (tex ++ close))).length := by
      simp [size, front_free.returned, free.returned]
      omega
    simp only [Option.map_some, partWithReturns, even, used, used', Text.returnedLength_of_prefix starts]

theorem math?_returned (c : Char) (cs : List Char) :
    math? .html c (returned cs) = (math? .html c cs).map (partWithReturns cs) := by
  have inline (tex : List Char) : inlineMath .html (returned tex) = returned (inlineMath .html tex) := by
    simp only [inlineMath, Text.returned_append]
    rfl
  have display (tex : List Char) :
      displayMath .html (returned tex) = returned (displayMath .html tex) := by
    simp only [displayMath, Text.returned_append]
    rfl
  have opens {a : Char} (free : LineFree [a]) {cs : List Char} (other : cs.head? ≠ some a) :
      (returned cs).head? ≠ some a := mt (Text.head?_returned_iff free).mp other
  by_cases dollar : c = '$'
  · subst dollar
    have alone (cs : List Char) (other : cs.head? ≠ some '$') : math? .html '$' cs =
        (Text.before? ['$'] cs).map fun tex => (inlineMath .html tex, tex.length + 1) := by
      unfold math?
      split <;> simp_all
    by_cases double : cs.head? = some '$'
    · obtain ⟨rest, rfl⟩ := List.head?_eq_some_iff.mp double
      rw [Text.returned_cons (by decide)]
      exact @upTo_returned ['$'] _ _ _ _ (by decide) (by decide) (by decide) display rfl
    · rw [alone _ double, alone _ (opens (by decide) double)]
      exact @upTo_returned [] _ _ _ _ (by decide) (by decide) (by decide) inline rfl
  by_cases paren : c = '\\' ∧ cs.head? = some '('
  · obtain ⟨rfl, paren⟩ := paren
    obtain ⟨rest, rfl⟩ := List.head?_eq_some_iff.mp paren
    rw [Text.returned_cons (by decide)]
    exact @upTo_returned ['('] _ _ _ _ (by decide) (by decide) (by decide) inline rfl
  · have none_ (cs : List Char) (other : ¬ (c = '\\' ∧ cs.head? = some '(')) :
        math? .html c cs = none := by
      unfold math?
      split <;> simp_all
    rw [none_ _ paren, none_, Option.map_none]
    exact fun both => paren ⟨both.1, (Text.head?_returned_iff (by decide)).mp both.2⟩

theorem groupLength?_cons (slash : c ≠ '\\') (depth : Nat) (cs : List Char) :
    groupLength? depth (c :: cs) =
      if c = '\x7b' then (groupLength? (depth + 1) cs).map (· + 1)
      else if c = '\x7d' then
        match depth with
        | 0 => some 0
        | depth + 1 => (groupLength? depth cs).map (· + 1)
      else (groupLength? depth cs).map (· + 1) := by
  rw [groupLength?.eq_def]
  split
  next eq => cases eq
  next eq => exact absurd (List.cons.inj eq).1 slash
  next eq => exact absurd (List.cons.inj eq).1 slash
  next eq =>
    obtain ⟨rfl, rfl⟩ := List.cons.inj eq
    rfl

theorem groupLength?_returned (depth : Nat) (cs : List Char) :
    groupLength? depth (returned cs) = (groupLength? depth cs).map (returnedLength cs) := by
  have step {a b : Option Nat} {cs ds : List Char} (k l : Nat) (ih : b = a.map (returnedLength cs))
      (length : ∀ n, returnedLength ds (n + k) = returnedLength cs n + l) :
      b.map (· + l) = (a.map (· + k)).map (returnedLength ds) := by
    rw [ih, Option.map_map, Option.map_map]
    exact congrArg (Option.map · a) (funext fun n => (length n).symm)
  fun_induction groupLength? depth cs with
  | case1 => rfl
  | case2 => rfl
  | case3 depth c cs ih =>
    by_cases feed : c = '\n'
    · subst feed
      rw [Text.returned_cons (by decide), Text.returned_feed, groupLength?,
        groupLength?_cons (by decide), if_neg (by decide), if_neg (by decide), Option.map_map]
      refine step 2 3 ih fun n => ?_
      rw [Text.returnedLength_cons (by decide), Text.returnedLength_feed]
    · rw [Text.returned_cons (by decide), Text.returned_cons feed, groupLength?]
      refine step 2 2 ih fun n => ?_
      rw [Text.returnedLength_cons (by decide), Text.returnedLength_cons feed]
  | case4 depth cs _ _ ih =>
    rw [Text.returned_cons (by decide), groupLength?_cons (by decide), if_pos rfl]
    exact step 1 1 ih fun n => Text.returnedLength_cons (by decide) cs n
  | case5 cs =>
    rw [Text.returned_cons (by decide), groupLength?_cons (by decide), if_neg (by decide), if_pos rfl]
    rfl
  | case6 cs _ _ _ depth ih =>
    rw [Text.returned_cons (by decide), groupLength?_cons (by decide), if_neg (by decide), if_pos rfl]
    exact step 1 1 ih fun n => Text.returnedLength_cons (by decide) cs n
  | case7 depth c cs slash slash' opens closes ih =>
    have slash : c ≠ '\\' := by
      rintro rfl
      cases cs with
      | nil => exact slash rfl rfl
      | cons d cs => exact slash' d cs rfl rfl
    by_cases feed : c = '\n'
    · subst feed
      rw [Text.returned_feed, groupLength?_cons (by decide), if_neg (by decide), if_neg (by decide),
        groupLength?_cons (by decide), if_neg (by decide), if_neg (by decide), Option.map_map]
      exact step 1 2 ih fun n => Text.returnedLength_feed cs n
    · rw [Text.returned_cons feed, groupLength?_cons slash, if_neg opens, if_neg closes]
      exact step 1 1 ih fun n => Text.returnedLength_cons feed cs n

def Action.withReturns (cs : List Char) : Action → Action
  | put text used => put (returned text) (returnedLength cs used)
  | wrapGroup wrap skip size =>
    wrapGroup wrap (returnedLength cs skip) (returnedLength (cs.drop skip) size)
  | stuck => stuck

def named (wrap : Option Wrap) (n : Nat) (more : List Char) : Action :=
  match wrap, more with
  | some wrap, '\x7b' :: group =>
    match groupLength? 0 group with
    | some size => .wrapGroup wrap (n + 1) size
    | none => .stuck
  | _, _ => .stuck

theorem named_of_ne {wrap : Option Wrap} {n : Nat} {more : List Char}
    (brace : more.head? ≠ some '\x7b') : named wrap n more = .stuck := by
  unfold named
  split
  next => simp at brace
  next => rfl

theorem command_append {name blanks more : List Char}
    (name_eq : (name ++ (blanks ++ more)).takeWhile Char.isAlpha = name)
    (blanks_eq : (blanks ++ more).takeWhile (· == ' ') = blanks) :
    command (name ++ (blanks ++ more)) =
      if dropped.contains (.ofList name) then .put [] (name.length + blanks.length)
      else named (commands.lookup (.ofList name)) (name.length + blanks.length) more := by
  unfold command
  dsimp only
  rw [name_eq, List.drop_left, blanks_eq, List.drop_left]
  rfl

theorem named_returned {front more : List Char} (free : LineFree front) (wrap : Option Wrap) :
    named wrap front.length (returned more) =
      (named wrap front.length more).withReturns (front ++ more) := by
  by_cases brace : more.head? = some '\x7b'
  · obtain ⟨group, rfl⟩ := List.head?_eq_some_iff.mp brace
    have takes : TakesLine (front ++ '\x7b' :: group) (front.length + 1) :=
      ⟨front ++ ['\x7b'], by simp, free.append (by decide), by simp⟩
    have behind : (front ++ '\x7b' :: group).drop (front.length + 1) = group := by
      simp [List.drop_append]
    rw [Text.returned_cons (by decide)]
    cases wrap with
    | none => rfl
    | some wrap =>
      rw [named, named, groupLength?_returned]
      cases groupLength? 0 group with
      | none => rfl
      | some size =>
        simp only [Option.map_some, Action.withReturns, takes.returnedLength_eq, behind]
  · rw [named_of_ne brace, named_of_ne (mt (Text.head?_returned_iff (by decide)).mp brace)]
    rfl

/-- A text as a command reads it: a name, blanks, and more. -/
theorem exists_command (cs : List Char) : ∃ name blanks more, cs = name ++ (blanks ++ more) ∧
    cs.takeWhile Char.isAlpha = name ∧ (blanks ++ more).takeWhile (· == ' ') = blanks := by
  obtain ⟨rest, split⟩ := List.takeWhile_prefix Char.isAlpha (l := cs)
  obtain ⟨more, split'⟩ := List.takeWhile_prefix (· == ' ') (l := rest)
  exact ⟨_, rest.takeWhile (· == ' '), more, by rw [split', split], rfl, by rw [split']⟩

theorem command_returned (cs : List Char) : command (returned cs) = (command cs).withReturns cs := by
  obtain ⟨name, blanks, more, rfl, named_eq, blank_eq⟩ := exists_command cs
  have name_free : LineFree name := named_eq ▸ Text.free_takeWhile rfl rfl _
  have blanks_free : LineFree blanks := blank_eq ▸ Text.free_takeWhile rfl rfl _
  have free := name_free.append blanks_free
  have whole : returned (name ++ (blanks ++ more)) = name ++ (blanks ++ returned more) := by
    rw [Text.returned_append, Text.returned_append, name_free.returned, blanks_free.returned]
  have named_eq' : (name ++ (blanks ++ returned more)).takeWhile Char.isAlpha = name := by
    rw [← whole, Text.takeWhile_returned rfl, named_eq, name_free.returned]
  have blank_eq' : (blanks ++ returned more).takeWhile (· == ' ') = blanks := by
    have even := Text.takeWhile_returned (p := (· == ' ')) rfl (blanks ++ more)
    rwa [blank_eq, Text.returned_append, blanks_free.returned] at even
  rw [whole, command_append named_eq' blank_eq', command_append named_eq blank_eq,
    ← List.length_append, named_returned free, ← List.append_assoc]
  split
  · have takes : TakesLine (name ++ blanks ++ more) (name ++ blanks).length :=
      ⟨_, List.prefix_append _ _, free, rfl⟩
    rw [Action.withReturns, takes.returnedLength_eq]
    rfl
  · rfl

theorem commentLength_cons (other : c ≠ '\n') (cs : List Char) :
    commentLength (c :: cs) = commentLength cs + 1 := by
  have differs : ('\n' == c) = false := by simpa using Ne.symm other
  have before : Text.before? ['\n'] (c :: cs) = (Text.before? ['\n'] cs).map (c :: ·) := by
    simp [Text.before?, List.isPrefixOf, differs]
  rw [commentLength, commentLength, before]
  cases Text.before? ['\n'] cs <;> rfl

/-- A comment ends behind the same line feed. -/
theorem commentLength_returned (cs : List Char) :
    commentLength (returned cs) = returnedLength cs (commentLength cs) := by
  have ended (cs : List Char) : commentLength ('\n' :: cs) = 1 := by
    simp [commentLength, Text.before?, List.isPrefixOf]
  induction cs with
  | nil => rfl
  | cons c cs ih =>
    by_cases feed : c = '\n'
    · subst feed
      rw [Text.returned_feed, commentLength_cons (by decide), ended, ended, Text.returnedLength_feed]
      rfl
    · rw [Text.returned_cons feed, commentLength_cons feed, commentLength_cons feed, ih,
        Text.returnedLength_cons feed]

theorem action_returned (other : c ≠ '\n') (cs : List Char) :
    action .html c (returned cs) = (action .html c cs).withReturns cs := by
  unfold action
  rw [math?_returned, Accent.decode?_returned, entry?_returned other, commentLength_returned,
    command_returned]
  split
  · rfl
  cases math? .html c cs with
  | some part => rfl
  | none =>
    dsimp only [Option.map_none]
    cases accent : if c = '\\' then Accent.decode? cs else none with
    | some decoded =>
      split at accent
      · obtain ⟨takes, line⟩ := Accent.takesLine_decode? accent
        simp only [Action.withReturns, takes.returnedLength_eq, Text.returned_cons line,
          Text.returned_nil]
      · cases accent
    | none =>
      dsimp only
      cases entry : entry? .html c cs with
      | some row =>
        obtain ⟨takes, plain⟩ := takesLine_entry? entry
        simp only [Action.withReturns, takes.returnedLength_eq, plain]
      | none =>
        dsimp only
        split
        · rfl
        · simp only [Action.withReturns, Text.returned_cons other, Text.returned_nil, returnedLength,
            List.take_zero, List.length_nil]

theorem head?_of_groupLength? {depth size : Nat} {cs : List Char}
    (found : groupLength? depth cs = some size) : (cs.drop size).head? = some '\x7d' := by
  fun_induction groupLength? depth cs generalizing size with
  | case1 | case2 => cases found
  | case5 =>
    cases found
    rfl
  | _ =>
    rename_i ih
    obtain ⟨size, inner, rfl⟩ := Option.map_eq_some_iff.mp found
    exact ih inner

/-- A group that is wrapped ends in its brace. -/
theorem head?_of_wrapGroup {wrap : Wrap} {skip size : Nat}
    (acted : action .html c cs = .wrapGroup wrap skip size) :
    (cs.drop (skip + size)).head? = some '\x7d' := by
  have commanded : command cs = .wrapGroup wrap skip size := by
    unfold action at acted
    split at acted
    · cases acted
    split at acted
    · cases acted
    split at acted
    · cases acted
    split at acted
    · cases acted
    split at acted
    · exact acted
    · cases acted
  obtain ⟨name, blanks, more, rfl, named_eq, blank_eq⟩ := exists_command cs
  rw [command_append named_eq blank_eq] at commanded
  split at commanded
  · cases commanded
  unfold named at commanded
  split at commanded
  next group _ =>
    split at commanded
    next found =>
      cases commanded
      have split : name ++ (blanks ++ '\x7b' :: group) = (name ++ (blanks ++ ['\x7b'])) ++ group := by
        simp
      rw [← List.drop_drop, split, List.drop_left' (by simp; omega)]
      exact head?_of_groupLength? found
    next => cases commanded
  next => cases commanded

theorem convert_feed (cs : List Char) :
    convert .html ('\n' :: cs) = (['\n'] ++ ·) <$> convert .html cs :=
  convert_put (action_ordinary (by decide) fun _ => by decide)

theorem convert_return (cs : List Char) :
    convert .html ('\r' :: cs) = (['\r'] ++ ·) <$> convert .html cs :=
  convert_put (action_ordinary (by decide) fun _ => by decide)

theorem returned_apply (wrap : Wrap) (inner : List Char) :
    returned (wrap.apply .html inner) = wrap.apply .html (returned inner) := by
  cases wrap <;> simp only [Wrap.apply, Wrap.around, Text.returned_append, Text.returned_nil] <;> rfl

/-- What is converted without carriage returns is converted with them. -/
theorem convert_returned {cs text : List Char} (converted : convert .html cs = .ok text) :
    convert .html (returned cs) = .ok (returned text) := by
  induction size : cs.length using Nat.strong_induction_on generalizing cs text with
  | _ size ih =>
    cases cs with
    | nil =>
      rw [convert] at converted
      cases converted
      rw [Text.returned_nil, convert]
    | cons c cs =>
      rw [List.length_cons] at size
      by_cases feed : c = '\n'
      · subst feed
        rw [convert_feed] at converted
        obtain ⟨more, inner, rfl⟩ := exists_of_map_ok converted
        rw [Text.returned_feed, convert_return, convert_feed, ih cs.length (by omega) inner rfl]
        rfl
      · rw [convert] at converted
        rw [Text.returned_cons feed, convert, action_returned feed]
        cases acted : action .html c cs with
        | put text used =>
          rw [acted] at converted
          obtain ⟨more, inner, rfl⟩ := exists_of_map_ok converted
          have behind := ih (cs.drop used).length (by rw [List.length_drop]; omega) inner rfl
          simp only [Action.withReturns, Text.drop_returned, behind, Text.returned_append]
          rfl
        | wrapGroup wrap skip size' =>
          obtain ⟨more, close⟩ := List.head?_eq_some_iff.mp (head?_of_wrapGroup acted)
          have further : cs.drop (skip + size' + 1) = more := by
            rw [← List.drop_drop, close, List.drop_succ_cons, List.drop_zero]
          have further' : (returned cs).drop (returnedLength cs skip +
              returnedLength (cs.drop skip) size' + 1) = returned more := by
            rw [← List.drop_drop, ← List.drop_drop, Text.drop_returned, Text.drop_returned,
              List.drop_drop, close, Text.returned_cons (by decide), List.drop_succ_cons,
              List.drop_zero]
          rw [acted] at converted
          simp only [Action.withReturns, Text.drop_returned, Text.take_returned, further, further',
            bind, Except.bind] at converted ⊢
          split at converted
          · cases converted
          next inner first =>
            split at converted
            · cases converted
            next rest second =>
              cases converted
              have front := ih ((cs.drop skip).take size').length
                (by rw [List.length_take, List.length_drop]; omega) first rfl
              have shorter : more.length < cs.length := by
                rw [← further, List.length_drop]
                have some_ := List.length_pos_of_ne_nil (List.ne_nil_of_mem
                  (List.mem_of_mem_drop (close ▸ List.mem_cons_self)))
                omega
              have back := ih more.length (by omega) second rfl
              simp only [front, back, Text.returned_append, returned_apply]
              rfl
        | stuck =>
          rw [acted] at converted
          cases converted

theorem normalize_withReturns {raw text : String} (normalized : normalize .html raw = .ok text) :
    normalize .html (Text.withReturns raw) = .ok (Text.withReturns text) := by
  obtain ⟨chars, converted, rfl⟩ := exists_of_map_ok normalized
  rw [normalize, Text.toList_withReturns, convert_returned converted, Text.withReturns_ofList]
  rfl

end Prose
end Quire
