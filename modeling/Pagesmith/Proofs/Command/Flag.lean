import Pagesmith.Command.Line
import Pagesmith.Proofs.Outcome
import Pagesmith.Proofs.Value.Field

/-!
# Values of flags

Reading a command line sets the values of flags one after another.  So each value that it gives
belongs to a flag of the command and is of that flag's kind.

* `FlagKind.Holds`: the values of a kind.
* `GivenBy`: values that flags can be given; `GivenBy.set` for one more value, `GivenBy.parseFlags`
  for all arguments.
* `givenBy_of_parseLine`: the values of a command line.
-/

namespace Pagesmith.Command

variable {f : Flag} {p q : Parsed}

def FlagKind.Holds : FlagKind → Value → Prop
  | .bool, .bool _ => True
  | .text, .str _ => True
  | .texts, .list _ _ => True
  | .int, .int _ => True
  | .float, .float _ => True
  | .duration, .int _ => True
  | _, _ => False

theorem Flag.holds_of_read {old : Option Value} {s : String} {v : Value}
    (h : f.read old s = .ok v) :
    f.kind.Holds v := by
  rw [Flag.read] at h
  cases hk : f.kind with
  | text =>
    simp only [hk] at h
    cases h
    trivial
  | bool =>
    simp only [hk] at h
    split at h
    · cases h; trivial
    · split at h <;> cases h
      trivial
  | texts | int | float | duration =>
    simp only [hk] at h
    split at h <;> cases h
    trivial

/-- Values that flags can be given, each name once. -/
structure GivenBy (flags : List Flag) (values : List (String × Value)) : Prop where
  ordered : Value.Ordered values
  holds : ∀ x ∈ values, ∃ f ∈ flags, f.name = x.1 ∧ f.kind.Holds x.2

theorem givenBy_nil (flags : List Flag) : GivenBy flags [] := ⟨.nil, nofun⟩

/-! ### Reading flags -/

namespace GivenBy

variable {flags : List Flag}

theorem set {s : String} (h : GivenBy flags p.values) (hf : f ∈ flags) (hset : p.set f s = .ok q) :
    GivenBy flags q.values := by
  rw [Parsed.set] at hset
  cases hread : f.read (Value.field? p.values f.name) s with
  | error e =>
    rw [hread] at hset
    cases hset
  | ok v =>
    rw [hread] at hset
    cases hset
    refine ⟨h.ordered.setField f.name v, fun x hx => ?_⟩
    rcases Value.mem_setField hx with rfl | hx
    · exact ⟨f, hf, rfl, Flag.holds_of_read hread⟩
    · exact h.holds x hx

theorem parseLetters {letters : List Char} (h : GivenBy flags p.values)
    (hparse : parseLetters flags letters p = .ok q) : GivenBy flags q.values := by
  induction letters generalizing p with
  | nil =>
    rw [Command.parseLetters] at hparse
    cases hparse
    exact h
  | cons c cs ih =>
    rw [Command.parseLetters] at hparse
    split at hparse
    · cases hparse
    · next f hfind =>
      have hf : f ∈ flags := List.mem_of_find?_eq_some hfind
      split at hparse
      · exact h.set hf hparse
      · obtain ⟨r, hset, hrest⟩ := bind_eq_ok.mp hparse
        exact ih (h.set hf hset) hrest

end GivenBy

def LongFlag.flag? : LongFlag → Option Flag
  | .fault _ => none
  | .given f _ => some f
  | .open f => some f

theorem mem_of_longFlag {flags : List Flag} {body : List Char}
    (h : (longFlag flags body).flag? = some f) : f ∈ flags := by
  unfold longFlag at h
  split at h
  · cases h
  · cases h
  · dsimp only at h
    split at h
    · cases h
    · next hfind _ =>
      cases h
      exact List.mem_of_find?_eq_some hfind
    · next hfind _ =>
      split at h
      all_goals
        cases h
        exact List.mem_of_find?_eq_some hfind

namespace GivenBy

variable {flags : List Flag}

/-- All values of the flags among some arguments.  The value of a flag may be the argument behind
it, so the induction is on the number of arguments. -/
theorem parseFlags {args : List String} (h : GivenBy flags p.values)
    (hparse : parseFlags flags args p = .ok q) : GivenBy flags q.values := by
  induction hn : args.length using Nat.strongRecOn generalizing args p with
  | _ n ih =>
    cases args with
    | nil =>
      rw [Command.parseFlags] at hparse
      cases hparse
      exact h
    | cons arg rest =>
      have hrest {p : Parsed} (hp : GivenBy flags p.values)
          (hparse : Command.parseFlags flags rest p = .ok q) : GivenBy flags q.values :=
        ih rest.length (by rw [← hn, List.length_cons]; omega) hp hparse rfl
      rw [Command.parseFlags] at hparse
      split at hparse
      · cases hparse
        exact h
      · split at hparse
        · cases hparse
        · next f value hlong =>
          obtain ⟨r, hset, hparse⟩ := bind_eq_ok.mp hparse
          exact hrest (h.set (mem_of_longFlag (congrArg LongFlag.flag? hlong)) hset) hparse
        · next f hlong =>
          split at hparse
          · cases hparse
          · next value rest =>
            obtain ⟨r, hset, hparse⟩ := bind_eq_ok.mp hparse
            have hlt : rest.length < n := by
              rw [← hn, List.length_cons, List.length_cons]
              omega
            exact ih rest.length hlt
              (h.set (mem_of_longFlag (congrArg LongFlag.flag? hlong)) hset) hparse rfl
      · obtain ⟨r, hletters, hparse⟩ := bind_eq_ok.mp hparse
        exact hrest (h.parseLetters hletters) hparse
      · refine hrest ?_ hparse
        exact h

end GivenBy

theorem givenBy_of_parseLine {args : List String} {line : Line} (h : parseLine args = .ok line)
    (hhelp : line.command ≠ .help) : GivenBy line.command.flags line.parsed.values := by
  rw [parseLine] at h
  obtain ⟨⟨c, rest⟩, -, h⟩ := bind_eq_ok.mp h
  obtain ⟨parsed, hparsed, h⟩ := bind_eq_ok.mp h
  split at h
  · cases h
    exact absurd rfl hhelp
  · obtain ⟨-, -, h⟩ := bind_eq_ok.mp h
    cases h
    exact (givenBy_nil c.flags).parseFlags (mapError_eq_ok.mp hparsed)

end Pagesmith.Command
