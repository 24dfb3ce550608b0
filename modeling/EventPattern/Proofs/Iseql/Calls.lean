import EventPattern.Iseql.Atom
import EventPattern.Proofs.Iseql.Omission
import EventPattern.Proofs.Json.Quoting

/-! Predicate calls can be told apart.

The name of a predicate is written as it comes, so it may hold brackets, commas and quotes, and a
text may look like a call in more than one way. It is one in one way only (`call_eq_iff`). Two
readings of a text as a call with different names would have the arguments of one begin within
those of the other, right behind a bracket; and since a bracket among arguments stands between
quotes, one of them would be inside of quotes there and the other outside. From there on they stay
on opposite sides, for every quote takes both across and a backslash none (`step_opposite`), so
they cannot both have closed their quotes in the end.

Once the name is known the arguments are read one after the other, each up to where its atom ends
(`readAtom?_atom`). -/
namespace EventPattern.Iseql

theorem isTail_of_isBare {chars : List Char} (h : isBare chars) : ∀ c ∈ chars, isTail c := by
  cases chars with
  | nil => cases h
  | cons first rest =>
    obtain ⟨hfirst, hrest⟩ := Bool.and_eq_true_iff.mp h
    have htail : isTail first := by simp [isTail, hfirst]
    exact List.forall_mem_cons.mpr ⟨htail, List.all_eq_true.mp hrest⟩

/-! ### Inside quotes and outside -/

/-- Where a reader of arguments stands; `escaped` is inside of quotes, behind a backslash. -/
inductive Side where
  | outside
  | inside
  | escaped

namespace Side

/-- Outside of quotes there is nothing but bare atoms and what separates them. -/
def step : Side → Char → Option Side
  | outside, c =>
    if c = '"' then some inside
    else if isTail c || c = ',' || c = ' ' then some outside
    else none
  | inside, c => some (if c = '"' then outside else if c = '\\' then escaped else inside)
  | escaped, _ => some inside

def run (side : Side) (chars : List Char) : Option Side := chars.foldlM step side

theorem run_append (side : Side) (a b : List Char) :
    run side (a ++ b) = (run side a).bind fun next => run next b :=
  List.foldlM_append

theorem run_cons (side : Side) (c : Char) (rest : List Char) :
    run side (c :: rest) = (step side c).bind fun next => run next rest := rfl

/-! ### Opposite sides -/

/-- One of two readers is inside of quotes and the other is not. -/
inductive Opposite : Side → Side → Prop where
  | left : Opposite inside outside
  | right : Opposite outside inside

theorem Opposite.symm {a b : Side} (h : Opposite a b) : Opposite b a := by
  cases h with
  | left => exact .right
  | right => exact .left

theorem step_inside_outside {next next' : Side} {c : Char} (hinside : step inside c = some next)
    (houtside : step outside c = some next') : Opposite next next' := by
  simp only [step] at hinside houtside
  cases hinside
  split at houtside
  · next hquote =>
    cases houtside
    rw [if_pos hquote]
    exact .right
  · next hquote =>
    split at houtside
    · next hbare =>
      cases houtside
      -- No backslash can be read outside of quotes.
      have hbackslash : c ≠ '\\' := by
        rintro rfl
        exact absurd hbare (by decide)
      rw [if_neg hquote, if_neg hbackslash]
      exact .left
    · cases houtside

/-- **Readers on opposite sides stay on opposite sides**, as long as both can go on. -/
theorem step_opposite {a b next next' : Side} {c : Char} (h : Opposite a b)
    (ha : step a c = some next) (hb : step b c = some next') : Opposite next next' := by
  cases h with
  | left => exact step_inside_outside ha hb
  | right => exact (step_inside_outside hb ha).symm

theorem run_opposite {a b next next' : Side} {chars : List Char} (h : Opposite a b)
    (ha : run a chars = some next) (hb : run b chars = some next') : Opposite next next' := by
  induction chars generalizing a b with
  | nil =>
    cases ha
    cases hb
    exact h
  | cons c rest ih =>
    obtain ⟨after, hstep, hrest⟩ := Option.bind_eq_some_iff.mp ha
    obtain ⟨after', hstep', hrest'⟩ := Option.bind_eq_some_iff.mp hb
    exact ih (step_opposite h hstep hstep') hrest hrest'

/-! ### Closed texts -/

theorem step_tail {c : Char} (hc : isTail c) : step outside c = some outside := by
  have hquote : c ≠ '"' := by
    rintro rfl
    exact absurd hc (by decide)
  simp [step, hquote, hc]

theorem step_ordinary {c : Char} (hc : Json.IsOrdinary c) : step inside c = some inside := by
  rw [step, if_neg hc.1, if_neg hc.2]

theorem run_escapeChar (c : Char) : run inside (escapeChar c) = some inside := by
  obtain ⟨letter, hletter, -⟩ | ⟨-, hnumber⟩ | ⟨hc, hself⟩ := Json.escapeChar_cases c
  · rw [hletter]
    rfl
  · rw [hnumber]
    show run inside ['0', '0', lowerHex _, lowerHex _] = _
    have hdigit (n : Nat) := step_ordinary (Json.isOrdinary_lowerHex n)
    have hzero : step inside '0' = some inside := rfl
    simp only [run_cons, hzero, hdigit, Option.bind_some]
    rfl
  · rw [hself]
    exact step_ordinary hc

/-- The quotes in the text are closed, and it has no bracket outside of them. -/
def IsClosed (chars : List Char) : Prop := run outside chars = some outside

theorem IsClosed.append {a b : List Char} (ha : IsClosed a) (hb : IsClosed b) :
    IsClosed (a ++ b) := by
  rw [IsClosed, run_append, ha]
  exact hb

theorem isClosed_flatMap {α : Type} {items : List α} {f : α → List Char}
    (h : ∀ item ∈ items, IsClosed (f item)) : IsClosed (items.flatMap f) := by
  induction items with
  | nil => exact rfl
  | cons item rest ih =>
    obtain ⟨hitem, hrest⟩ := List.forall_mem_cons.mp h
    rw [List.flatMap_cons]
    exact hitem.append (ih hrest)

theorem isClosed_quote (text : String) : IsClosed (quote text).toList := by
  have hinside (chars : List Char) : run inside (chars.flatMap escapeChar) = some inside := by
    induction chars with
    | nil => rfl
    | cons c rest ih =>
      rw [List.flatMap_cons, run_append, run_escapeChar]
      exact ih
  rw [quote, String.toList_ofList, IsClosed, List.cons_append, run_cons]
  show run inside _ = _
  rw [run_append, hinside]
  rfl

theorem isClosed_bare {chars : List Char} (h : ∀ c ∈ chars, isTail c) : IsClosed chars := by
  induction chars with
  | nil => exact rfl
  | cons c rest ih =>
    obtain ⟨hc, hrest⟩ := List.forall_mem_cons.mp h
    rw [IsClosed, run_cons, step_tail hc]
    exact ih hrest

theorem isClosed_atom (text : String) : IsClosed (atom text).toList := by
  unfold atom
  split
  · next hbare => exact isClosed_bare (isTail_of_isBare hbare)
  · exact isClosed_quote text

/-- A bracket in a closed text is inside of quotes. -/
theorem IsClosed.bracket {before behind : List Char} (h : IsClosed (before ++ '(' :: behind)) :
    run inside behind = some outside := by
  rw [IsClosed, run_append] at h
  obtain ⟨side, -, hside⟩ := Option.bind_eq_some_iff.mp h
  cases side with
  | outside => cases hside
  | inside => exact hside
  | escaped => exact hside

/-- Of two closed texts neither begins behind a bracket of the other. -/
theorem IsClosed.not_behind {before behind : List Char} (h : IsClosed (before ++ '(' :: behind)) :
    ¬ IsClosed behind := fun hbehind => by
  cases run_opposite .left h.bracket hbehind

end Side

/-! ### The name -/

/-- The arguments as a call has them between its brackets. -/
def arguments (args : List String) : List Char := (", ".intercalate (args.map atom)).toList

/-- The arguments behind the first one. -/
def furtherArguments (args : List String) : List Char :=
  args.flatMap fun arg => ',' :: ' ' :: (atom arg).toList

theorem furtherArguments_cons (arg : String) (rest : List String) :
    furtherArguments (arg :: rest) = ',' :: ' ' :: ((atom arg).toList ++ furtherArguments rest) :=
  rfl

theorem arguments_cons (arg : String) (rest : List String) :
    arguments (arg :: rest) = (atom arg).toList ++ furtherArguments rest := by
  rw [arguments, List.map_cons, toList_intercalate_comma, List.flatMap_map, furtherArguments]

theorem isClosed_arguments (args : List String) : Side.IsClosed (arguments args) := by
  cases args with
  | nil => exact rfl
  | cons arg rest =>
    rw [arguments_cons]
    exact (Side.isClosed_atom arg).append
      (Side.isClosed_flatMap fun other _ => Side.isClosed_atom other)

theorem name_unique {name name' args args' : List Char} (hargs : Side.IsClosed args)
    (hargs' : Side.IsClosed args') (h : name ++ '(' :: args = name' ++ '(' :: args') :
    name = name' ∧ args = args' := by
  -- What one name has more than the other begins with the bracket of the other.
  have hnone {extra a b : List Char} (ha : Side.IsClosed a) (hb : Side.IsClosed b)
      (hsame : '(' :: a = extra ++ '(' :: b) : extra = [] := by
    cases extra with
    | nil => rfl
    | cons c rest =>
      obtain ⟨-, rfl⟩ := List.cons_eq_cons.mp hsame
      exact absurd hb ha.not_behind
  have hname : name = name' := by
    obtain ⟨extra, rfl, hsame⟩ | ⟨extra, rfl, hsame⟩ := List.append_eq_append_iff.mp h
    · rw [hnone hargs hargs' hsame, List.append_nil]
    · rw [hnone hargs' hargs hsame, List.append_nil]
  subst hname
  exact ⟨rfl, (List.cons_eq_cons.mp (List.append_cancel_left h)).2⟩

/-! ### The arguments -/

/-- Reads an atom, and gives what comes behind it. -/
def readAtom? : List Char → Option (String × List Char)
  | '"' :: rest => (Json.readQuoted rest).map fun (chars, behind) => (.ofList chars, behind)
  | chars => some (.ofList (chars.takeWhile isTail), chars.dropWhile isTail)

theorem readAtom?_bare {chars rest : List Char} (hbare : isBare chars)
    (hrest : ∀ c ∈ rest.head?, ¬ isTail c) :
    readAtom? (chars ++ rest) = some (.ofList chars, rest) := by
  have htail := isTail_of_isBare hbare
  have hquote (behind : List Char) : chars ++ rest ≠ '"' :: behind := by
    cases chars with
    | nil => cases hbare
    | cons c more =>
      rintro ⟨⟩
      exact absurd (htail '"' (List.mem_cons_self ..)) (by decide)
  have htake : rest.takeWhile isTail = [] := by
    cases rest with
    | nil => rfl
    | cons c more => exact List.takeWhile_cons_of_neg (hrest c rfl)
  have hdrop : rest.dropWhile isTail = rest := by
    cases rest with
    | nil => rfl
    | cons c more => exact List.dropWhile_cons_of_neg (hrest c rfl)
  rw [readAtom?.eq_2 _ hquote, List.takeWhile_append_of_pos htail, htake, List.append_nil,
    List.dropWhile_append_of_pos htail, hdrop]

theorem readAtom?_quote (text : String) (rest : List Char) :
    readAtom? ((quote text).toList ++ rest) = some (text, rest) := by
  rw [quote, String.toList_ofList, List.append_assoc]
  show Option.map _ (Json.readQuoted (_ ++ '"' :: rest)) = _
  rw [Json.readQuoted_escaped]
  simp only [Option.map_some, String.ofList_toList]

theorem readAtom?_atom (text : String) {rest : List Char} (hrest : ∀ c ∈ rest.head?, ¬ isTail c) :
    readAtom? ((atom text).toList ++ rest) = some (text, rest) := by
  unfold atom
  split
  · next hbare => rw [readAtom?_bare hbare hrest, String.ofList_toList]
  · exact readAtom?_quote text rest

theorem furtherArguments_head (args : List String) :
    ∀ c ∈ (furtherArguments args).head?, ¬ isTail c := by
  cases args with
  | nil => exact fun _ h => nomatch h
  | cons arg rest =>
    rintro c ⟨⟩
    decide

theorem readAtom?_further (arg : String) (rest : List String) :
    readAtom? ((atom arg).toList ++ furtherArguments rest) = some (arg, furtherArguments rest) :=
  readAtom?_atom arg (furtherArguments_head rest)

theorem furtherArguments_injective : Function.Injective furtherArguments := by
  intro args
  induction args with
  | nil =>
    intro args' h
    cases args' with
    | nil => rfl
    | cons arg' rest' => cases h
  | cons arg rest ih =>
    intro args' h
    cases args' with
    | nil => cases h
    | cons arg' rest' =>
      have hread := congrArg (fun chars => readAtom? (chars.drop 2)) h
      simp only [furtherArguments_cons, List.drop_succ_cons, List.drop_zero,
        readAtom?_further] at hread
      obtain ⟨rfl, hrest⟩ := Prod.mk.inj (Option.some.inj hread)
      rw [ih hrest]

theorem arguments_injective : Function.Injective arguments := by
  have hsome (arg : String) (rest : List String) : arguments (arg :: rest) ≠ arguments [] := by
    intro h
    have hread := readAtom?_further arg rest
    rw [← arguments_cons, h] at hread
    obtain ⟨harg, -⟩ := Prod.mk.inj (Option.some.inj hread)
    rw [arguments_cons, ← harg] at h
    -- An empty argument is not written bare.
    have hquotes : (atom "").toList ≠ [] := by decide
    exact hquotes (List.append_eq_nil_iff.mp h).1
  intro args args' h
  cases args with
  | nil =>
    cases args' with
    | nil => rfl
    | cons arg' rest' => exact absurd h.symm (hsome arg' rest')
  | cons arg rest =>
    cases args' with
    | nil => exact absurd h (hsome arg rest)
    | cons arg' rest' =>
      have hread := congrArg readAtom? h
      simp only [arguments_cons, readAtom?_further] at hread
      obtain ⟨rfl, hrest⟩ := Prod.mk.inj (Option.some.inj hread)
      rw [furtherArguments_injective hrest]

/-! ### Calls -/

theorem toList_call (p : Predicate) :
    (call p).toList = (p.name.toList ++ '(' :: arguments p.args) ++ [')'] := by
  simp [call, arguments]

/-- **No two calls have the same text.** -/
theorem call_eq_iff (p q : Predicate) :
    call p = call q ↔ p.name = q.name ∧ p.args = q.args := by
  constructor
  · intro h
    have htexts := congrArg String.toList h
    rw [toList_call, toList_call] at htexts
    obtain ⟨hname, hargs⟩ := name_unique (isClosed_arguments _) (isClosed_arguments _)
      (List.append_cancel_right htexts)
    exact ⟨String.toList_inj.mp hname, arguments_injective hargs⟩
  · rintro ⟨hname, hargs⟩
    rw [call, call, hname, hargs]

end EventPattern.Iseql
