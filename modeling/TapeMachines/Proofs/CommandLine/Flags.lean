import TapeMachines.CommandLine.Options
/-!
# One flag more

A flag may be added to arguments at the front, unless it is given already, and wherever else it is not taken for a
value (`read_cons`, `of_read_insert`). It then does nothing but raise itself: reading goes on with the flag up as it
goes on with the flag down, until the flag is given again (`Passes`). Each way to read an argument is such a reading,
and readings of this sort follow one another (`Passes.bind`).
-/

namespace TapeMachines.CommandLine

/-- The argument that raises a flag. -/
def Flag.option : Flag → String
  | .debug => "--debug"
  | .json => "--json"
  | .check => "--check"
  | .list => "--list"

namespace Options

def has (o : Options) : Flag → Bool
  | .debug => o.debug
  | .json => o.json
  | .check => o.check
  | .list => o.list

/-- The options with a flag up. -/
def up (o : Options) : Flag → Options
  | .debug => { o with debug := true }
  | .json => { o with json := true }
  | .check => { o with check := true }
  | .list => { o with list := true }

variable {o o' : Options} {f g : Flag}

theorem raise?_eq_some_iff : o.raise? f = some o' ↔ o.has f = false ∧ o.up f = o' := by
  cases f <;> simp [raise?, has, up]

theorem has_up_self (o : Options) (f : Flag) : (o.up f).has f = true := by
  cases f <;> rfl

theorem has_up_of_ne (h : g ≠ f) (o : Options) : (o.up g).has f = o.has f := by
  cases f <;> cases g <;> simp_all [has, up]

theorem up_comm (o : Options) (f g : Flag) : (o.up f).up g = (o.up g).up f := by
  cases f <;> cases g <;> rfl

theorem has_of_set? {s : Setting} {value : List Char} (h : o.set? s value = some o') : o'.has f = o.has f := by
  cases s <;> obtain ⟨v, -, rfl⟩ := Option.map_eq_some_iff.1 h <;> cases f <;> rfl

theorem set?_up (s : Setting) (value : List Char) : (o.up f).set? s value = (o.set? s value).map (·.up f) := by
  cases s <;> cases f <;> simp only [set?, Option.map_map] <;> rfl

end Options

/-! ## Reading on with a flag up -/

theorem bind_eq_ok {α β : Type} {x : Except Stop α} {h : α → Except Stop β} {b : β} :
    (x >>= h) = .ok b ↔ ∃ a, x = .ok a ∧ h a = .ok b := by
  cases x <;> simp [Bind.bind, Except.bind]

def Reader.up (r : Reader) (f : Flag) : Reader := { r with options := r.options.up f }

/-- The reading `g` never lowers the flag `f`, and goes with the flag up as it goes with the flag down, where it
does not raise the flag itself. -/
structure Passes (f : Flag) (g : Reader → Except Stop Reader) : Prop where
  down : ∀ {r r' : Reader}, g r = .ok r' → r'.options.has f = false → r.options.has f = false
  up : ∀ {r r' : Reader}, r.options.has f = false →
    (g (r.up f) = .ok r' ↔ ∃ s, g r = .ok s ∧ s.options.has f = false ∧ s.up f = r')

namespace Passes

variable {f : Flag} {g k : Reader → Except Stop Reader}

theorem error (s : Stop) : Passes f fun _ => .error s where
  down h := by cases h
  up _ := by simp

/-- A reading that leaves the options alone. -/
theorem keep (pending : Option Setting) (ended : Bool) : Passes f fun r => .ok ⟨r.options, pending, ended⟩ where
  down h hdown := by
    cases h
    exact hdown
  up hdown := by simp [Reader.up, hdown]

theorem ok : Passes f fun r => .ok r where
  down h hdown := by
    cases h
    exact hdown
  up hdown := by simp [hdown]

theorem bind (hg : Passes f g) (hk : Passes f k) : Passes f fun r => g r >>= k where
  down h hdown := by
    obtain ⟨s, hs, h⟩ := bind_eq_ok.1 h
    exact hg.down hs (hk.down h hdown)
  up {r r'} hdown := by
    rw [bind_eq_ok]
    constructor
    · rintro ⟨s', hs', h⟩
      obtain ⟨s, hs, hsdown, rfl⟩ := (hg.up hdown).1 hs'
      obtain ⟨t, ht, htdown, rfl⟩ := (hk.up hsdown).1 h
      exact ⟨t, bind_eq_ok.2 ⟨s, hs, ht⟩, htdown, rfl⟩
    · rintro ⟨t, h, htdown, rfl⟩
      obtain ⟨s, hs, ht⟩ := bind_eq_ok.1 h
      -- The flag that is down behind both was down between them.
      have hsdown := hk.down ht htdown
      exact ⟨s.up f, (hg.up hdown).2 ⟨s, hs, hsdown, rfl⟩, (hk.up hsdown).2 ⟨t, ht, htdown, rfl⟩⟩

/-- It is enough that a reading agrees with such a one on each reader, with the flag down and up. -/
theorem of_agree (h : ∀ r, ∃ k, Passes f k ∧ g r = k r ∧ g (r.up f) = k (r.up f)) : Passes f g where
  down {r r'} hr hdown := by
    obtain ⟨k, hk, hgk, -⟩ := h r
    rw [hgk] at hr
    exact hk.down hr hdown
  up {r r'} hdown := by
    obtain ⟨k, hk, hgk, hgkup⟩ := h r
    rw [hgk, hgkup]
    exact hk.up hdown

end Passes

/-! ## The ways to read an argument -/

section Ways

variable (f : Flag)

theorem raise_eq_ok_iff {r r' : Reader} {g : Flag} :
    r.raise g = .ok r' ↔ r.options.has g = false ∧ r.up g = r' := by
  have hraise : r.raise g = .ok r' ↔ ∃ o, r.options.raise? g = some o ∧ { r with options := o } = r' := by
    unfold Reader.raise
    cases r.options.raise? g <;> simp [Reader.orMisuse, Except.map]
  simp only [hraise, Options.raise?_eq_some_iff]
  constructor
  · rintro ⟨o, ⟨hdown, rfl⟩, rfl⟩
    exact ⟨hdown, rfl⟩
  · rintro ⟨hdown, rfl⟩
    exact ⟨_, ⟨hdown, rfl⟩, rfl⟩

theorem set_eq_ok_iff {r r' : Reader} {s : Setting} {value : List Char} :
    r.set s value = .ok r' ↔ ∃ o, r.options.set? s value = some o ∧ r' = ⟨o, none, r.ended⟩ := by
  unfold Reader.set
  cases h : r.options.set? s value <;> simp [Reader.orMisuse, Except.map, eq_comm]

theorem passes_raise (g : Flag) : Passes f fun r => r.raise g where
  down {r r'} h hdown := by
    obtain ⟨-, rfl⟩ := raise_eq_ok_iff.1 h
    by_cases hg : g = f
    · subst hg
      rw [Reader.up, Options.has_up_self] at hdown
      cases hdown
    · rwa [Reader.up, Options.has_up_of_ne hg] at hdown
  up {r r'} hdown := by
    rw [raise_eq_ok_iff]
    by_cases hg : g = f
    · subst hg
      simp [raise_eq_ok_iff, Reader.up, Options.has_up_self]
    · have hgup : (r.up f).options.has g = r.options.has g := Options.has_up_of_ne (Ne.symm hg) r.options
      have hcomm : (r.up f).up g = (r.up g).up f := by simp only [Reader.up, Options.up_comm _ f g]
      have hgdown : (r.up g).options.has f = false := (Options.has_up_of_ne hg r.options).trans hdown
      rw [hgup, hcomm]
      constructor
      · rintro ⟨hfirst, rfl⟩
        exact ⟨r.up g, raise_eq_ok_iff.2 ⟨hfirst, rfl⟩, hgdown, rfl⟩
      · rintro ⟨s, hs, -, rfl⟩
        obtain ⟨hfirst, rfl⟩ := raise_eq_ok_iff.1 hs
        exact ⟨hfirst, rfl⟩

theorem passes_set (s : Setting) (value : List Char) : Passes f fun r => r.set s value where
  down {r r'} h hdown := by
    obtain ⟨o, ho, rfl⟩ := set_eq_ok_iff.1 h
    rwa [Options.has_of_set? ho] at hdown
  up {r r'} hdown := by
    rw [set_eq_ok_iff, Reader.up, Options.set?_up]
    constructor
    · rintro ⟨o', ho', rfl⟩
      obtain ⟨o, ho, rfl⟩ := Option.map_eq_some_iff.1 ho'
      exact ⟨⟨o, none, r.ended⟩, set_eq_ok_iff.2 ⟨o, ho, rfl⟩, (Options.has_of_set? ho).trans hdown, rfl⟩
    · rintro ⟨s', hs', -, rfl⟩
      obtain ⟨o, ho, rfl⟩ := set_eq_ok_iff.1 hs'
      exact ⟨o.up f, by rw [ho, Option.map_some], rfl⟩

theorem passes_long (name : List Char) (value : Option (List Char)) : Passes f fun r => r.long name value := by
  unfold Reader.long
  cases long? (String.ofList name) with
  | none => exact .error .misuse
  | some meaning =>
    cases meaning with
    | flag g =>
      cases value with
      | none => exact passes_raise f g
      | some v => exact .error .misuse
    | setting s =>
      cases value with
      | none => exact .of_agree fun r => ⟨_, .keep (some s) r.ended, rfl, rfl⟩
      | some v => exact passes_set f s v
    | stop s =>
      cases value with
      | none => exact .error s
      | some v => exact .error .misuse

/-- What stands behind the short name of a setting is its value, but for an equals sign. -/
theorem exists_short_setting {c : Char} {s : Setting} (hc : short? c = some (.setting s)) {rest : List Char}
    (hrest : rest ≠ []) : ∃ value, ∀ r : Reader, r.short (c :: rest) = r.set s value := by
  obtain ⟨x, rest, rfl⟩ := List.exists_cons_of_ne_nil hrest
  by_cases hx : x = '='
  · exact ⟨rest, fun r => by simp [Reader.short, hc, hx]⟩
  · exact ⟨x :: rest, fun r => by simp [Reader.short, hc, hx]⟩

theorem passes_short (cs : List Char) : Passes f fun r => r.short cs := by
  induction cs with
  | nil => exact .ok
  | cons c rest ih =>
    cases hc : short? c with
    | none =>
      simp only [Reader.short, hc]
      exact .error .misuse
    | some meaning =>
      cases meaning with
      | flag g =>
        have hshort : (fun r : Reader => r.short (c :: rest)) = fun r => r.raise g >>= fun r' => r'.short rest := by
          funext r
          simp only [Reader.short, hc]
          cases r.raise g <;> rfl
        rw [hshort]
        exact (passes_raise f g).bind ih
      | setting s =>
        by_cases hrest : rest = []
        · subst hrest
          simp only [Reader.short, hc]
          exact .of_agree fun r => ⟨_, .keep (some s) r.ended, rfl, rfl⟩
        · obtain ⟨value, hvalue⟩ := exists_short_setting hc hrest
          simp only [hvalue]
          exact passes_set f s value
      | stop s =>
        simp only [Reader.short, hc]
        exact .error s

/-- Where no value is awaited, the reading of an argument goes by its dashes. -/
theorem exists_passes_argument (arg : List Char) :
    ∃ k, Passes f k ∧ ∀ o, Reader.argument ⟨o, none, false⟩ arg = k ⟨o, none, false⟩ := by
  rcases arg with _ | ⟨a, _ | ⟨b, rest⟩⟩
  · exact ⟨_, .error .misuse, fun _ => rfl⟩
  · exact ⟨_, .error .misuse, fun _ => by simp [Reader.argument]⟩
  · by_cases ha : a = '-'
    · subst ha
      by_cases hb : b = '-'
      · subst hb
        by_cases hrest : rest = []
        · subst hrest
          exact ⟨_, .keep none true, fun _ => rfl⟩
        · obtain ⟨x, rest, rfl⟩ := List.exists_cons_of_ne_nil hrest
          cases hvalue : (x :: rest).dropWhile (· ≠ '=') with
          | nil =>
            refine ⟨_, passes_long f (x :: rest) none, fun _ => ?_⟩
            simp only [Reader.argument, Bool.false_eq_true, if_false, hvalue]
          | cons c value =>
            refine ⟨_, passes_long f ((x :: rest).takeWhile (· ≠ '=')) (some value), fun _ => ?_⟩
            simp only [Reader.argument, Bool.false_eq_true, if_false, hvalue]
      · exact ⟨_, passes_short f (b :: rest), fun _ => by simp [Reader.argument, hb]⟩
    · exact ⟨_, .error .misuse, fun _ => by simp [Reader.argument, ha]⟩

theorem passes_argument (arg : List Char) : Passes f fun r => r.argument arg := by
  refine .of_agree fun r => ?_
  obtain ⟨o, pending, ended⟩ := r
  cases ended with
  | true => exact ⟨_, .error .misuse, rfl, rfl⟩
  | false =>
    cases pending with
    | some s =>
      by_cases hvalue : Reader.isValue arg
      · exact ⟨_, passes_set f s arg, by simp [Reader.argument, hvalue], by simp [Reader.argument, Reader.up, hvalue]⟩
      · exact ⟨_, .error .misuse, by simp [Reader.argument, hvalue], by simp [Reader.argument, Reader.up, hvalue]⟩
    | none =>
      obtain ⟨k, hk, hargument⟩ := exists_passes_argument f arg
      exact ⟨k, hk, hargument o, hargument (o.up f)⟩

end Ways

/-! ## Reading all arguments -/

def Reader.arguments (r : Reader) (args : List String) : Except Stop Reader :=
  args.foldlM (fun (r : Reader) arg => r.argument arg.toList) r

theorem Reader.arguments_cons (r : Reader) (arg : String) (args : List String) :
    r.arguments (arg :: args) = r.argument arg.toList >>= fun r' => r'.arguments args :=
  List.foldlM_cons

theorem Reader.arguments_append (r : Reader) (before after : List String) :
    r.arguments (before ++ after) = r.arguments before >>= fun r' => r'.arguments after :=
  List.foldlM_append

theorem passes_arguments (f : Flag) (args : List String) : Passes f fun r => r.arguments args := by
  induction args with
  | nil => exact .ok
  | cons arg args ih =>
    simp only [Reader.arguments_cons]
    exact (passes_argument f arg.toList).bind ih

variable {f : Flag} {r r' : Reader} {o o' : Options}

theorem argument_option_of_ready (o : Options) (f : Flag) :
    Reader.argument ⟨o, none, false⟩ f.option.toList = Reader.raise ⟨o, none, false⟩ f := by
  cases f <;> rfl

/-- A flag is never a value, and comes before the end of the options. -/
theorem argument_flag (h : r.argument f.option.toList = .ok r') : r.options.has f = false ∧ r.up f = r' := by
  obtain ⟨o, pending, ended⟩ := r
  cases ended with
  | true => cases h
  | false =>
    cases pending with
    | none => rwa [argument_option_of_ready, raise_eq_ok_iff] at h
    | some s =>
      have hvalue : Reader.isValue f.option.toList = false := by cases f <;> rfl
      simp [Reader.argument, hvalue] at h

theorem options_of_finish (h : r.finish = .ok o) : r.options = o := by
  unfold Reader.finish at h
  split at h
  · cases h
  · exact Except.ok.inj h

theorem finish_up (h : r.finish = .ok o) (f : Flag) : (r.up f).finish = .ok (o.up f) := by
  have ho := options_of_finish h
  have hne : r.options.up f ≠ {} := by
    intro hnone
    have hup := r.options.has_up_self f
    rw [hnone] at hup
    cases f <;> cases hup
  have hprogram : (r.options.up f).program = r.options.program := by cases f <;> rfl
  have hbuiltin : (r.options.up f).builtin = r.options.builtin := by cases f <;> rfl
  unfold Reader.finish at h ⊢
  split at h
  · cases h
  · next hno =>
    rw [if_neg]
    · rw [← ho]
      rfl
    · simp only [Bool.or_eq_true, decide_eq_true_eq, not_or] at hno ⊢
      refine ⟨⟨hno.1.1, hne⟩, ?_⟩
      rw [Reader.up, hprogram, hbuiltin]
      exact hno.2

theorem read_eq_ok_iff {args : List String} :
    Options.read args = .ok o ↔ ∃ r, Reader.start.arguments args = .ok r ∧ r.finish = .ok o := by
  rw [Options.read, ← Reader.arguments]
  cases Reader.start.arguments args <;> simp

/-! ## Main statements -/

/-- A flag that is not given can be given first. -/
theorem read_cons {args : List String} (h : Options.read args = .ok o) (hdown : o.has f = false) :
    Options.read (f.option :: args) = .ok (o.up f) := by
  obtain ⟨r, hr, hfinish⟩ := read_eq_ok_iff.1 h
  have hstart : Reader.start.options.has f = false := by cases f <;> rfl
  have hoption : Reader.start.argument f.option.toList = .ok (Reader.start.up f) := by
    rw [Reader.start, argument_option_of_ready]
    exact raise_eq_ok_iff.2 ⟨hstart, rfl⟩
  rw [← options_of_finish hfinish] at hdown
  refine read_eq_ok_iff.2 ⟨r.up f, ?_, finish_up hfinish f⟩
  rw [Reader.arguments_cons, hoption]
  exact ((passes_arguments f args).up hstart).2 ⟨r, hr, hdown, rfl⟩

/-- Wherever a flag is added to arguments that can be read, and still can, it raises itself and does nothing else. -/
theorem of_read_insert {before after : List String} (h : Options.read (before ++ after) = .ok o)
    (h' : Options.read (before ++ f.option :: after) = .ok o') : o.has f = false ∧ o' = o.up f := by
  obtain ⟨r, hr, hfinish⟩ := read_eq_ok_iff.1 h
  obtain ⟨r', hr', hfinish'⟩ := read_eq_ok_iff.1 h'
  rw [Reader.arguments_append, bind_eq_ok] at hr hr'
  obtain ⟨a, ha, hafter⟩ := hr
  obtain ⟨a', ha', hafter'⟩ := hr'
  obtain rfl : a = a' := Except.ok.inj (ha.symm.trans ha')
  rw [Reader.arguments_cons, bind_eq_ok] at hafter'
  obtain ⟨b, hflag, hafter'⟩ := hafter'
  obtain ⟨hadown, rfl⟩ := argument_flag hflag
  -- What follows is read from `a` with the flag down, and with the flag up.
  obtain ⟨s, hs, hsdown, rfl⟩ := ((passes_arguments f after).up hadown).1 hafter'
  obtain rfl : r = s := Except.ok.inj (hafter.symm.trans hs)
  rw [finish_up hfinish f] at hfinish'
  rw [options_of_finish hfinish] at hsdown
  exact ⟨hsdown, (Except.ok.inj hfinish').symm⟩

end TapeMachines.CommandLine
