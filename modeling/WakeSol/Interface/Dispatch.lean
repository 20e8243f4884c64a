import WakeSol.Lib.Scan
import WakeSol.Codec.Struct

/- Programs that decode their instructions: an instruction is chosen by the
   longest discriminator the data starts with. -/
set_option autoImplicit false

namespace WakeSol.Interface

open TextLib RadixLib DictLib ScanLib Codec

abbrev Args := List (Name × Value)

structure DecodedInstruction where
  programName : Text
  name : Option Name
  args : Args
  accountNames : List (Option Name)

-- The decoders close over compiled nodes, so they read the cache as it is when
-- they are called.
structure InstructionDef where
  name : Name
  discriminator : Bytes
  accountNames : List Name
  decodeArgs : Env → Bytes → Except Raised Args
  decodeReturn : Option (Env → Bytes → Except Raised Value)

structure ProgramInterface where
  programId : Text
  name : Text
  defs : List InstructionDef := []
  events : List (Bytes × Name) := []

def ProgramInterface.add (iface : ProgramInterface) (name : Name) (discriminator : Bytes) (accountNames : List Name)
    (decodeArgs : Option (Env → Bytes → Except Raised Args)) (decodeReturn : Option (Env → Bytes → Except Raised Value)) :
    ProgramInterface :=
  { iface with
    defs := iface.defs ++ [⟨name, discriminator, accountNames, decodeArgs.getD fun _ _ => .ok [], decodeReturn⟩] }

def ProgramInterface.addRefusing (iface : ProgramInterface) (name : Name) (discriminator : Bytes) (reason : Text) :
    ProgramInterface :=
  { iface with defs := iface.defs ++ [⟨name, discriminator, [], fun _ _ => .error (.refuseToDecode reason), none⟩] }

def ProgramInterface.addEvent (iface : ProgramInterface) (discriminator : Bytes) (cls : Name) : ProgramInterface :=
  { iface with events := dictSet iface.events discriminator cls }

def InstructionDef.starts (data : Bytes) (d : InstructionDef) : Bool := data.take d.discriminator.length == d.discriminator

def matchDef (defs : List InstructionDef) (data : Bytes) : Option InstructionDef :=
  scan (InstructionDef.starts data) (fun d => d.discriminator.length) defs

def paddedNames (names : List Name) (nAccounts : Nat) : List (Option Name) :=
  let kept := (names.take nAccounts).map some
  kept ++ List.replicate (nAccounts - kept.length) none

def ProgramInterface.decode (iface : ProgramInterface) (env : Env) (data : Bytes) (nAccounts : Nat) :
    Except Raised DecodedInstruction :=
  match matchDef iface.defs data with
  | none => .ok ⟨iface.name, none, [], List.replicate nAccounts none⟩
  | some d =>
    match d.decodeArgs env (data.drop d.discriminator.length) with
    | .ok args => .ok ⟨iface.name, some d.name, args, paddedNames d.accountNames nAccounts⟩
    | .error e => .error e

theorem starts_iff (data : Bytes) (d : InstructionDef) : d.starts data = true ↔ d.discriminator <+: data := by
  rw [InstructionDef.starts, beq_iff_eq, List.prefix_iff_eq_take]
  exact eq_comm

theorem starts_unique (defs : List InstructionDef) (distinct : (defs.map InstructionDef.discriminator).Nodup) (data : Bytes) :
    ∀ a ∈ defs, ∀ b ∈ defs, a.starts data = true → b.starts data = true →
      a.discriminator.length = b.discriminator.length → a = b := by
  intro a left b right startsLeft startsRight size
  refine List.inj_on_of_nodup_map distinct left right ?_
  have leftPrefix := (starts_iff data a).mp startsLeft
  have rightPrefix := (starts_iff data b).mp startsRight
  exact (List.prefix_of_prefix_length_le leftPrefix rightPrefix (Nat.le_of_eq size)).eq_of_length size

theorem match_longest (defs : List InstructionDef) (distinct : (defs.map InstructionDef.discriminator).Nodup) (data : Bytes)
    (d : InstructionDef) : matchDef defs data = some d ↔
      d ∈ defs ∧ d.discriminator <+: data ∧
        ∀ other ∈ defs, other.discriminator <+: data → other.discriminator.length ≤ d.discriminator.length := by
  rw [matchDef, scan_some _ _ defs (starts_unique defs distinct data) d]
  simp only [Largest, starts_iff]

theorem match_none (defs : List InstructionDef) (data : Bytes) :
    matchDef defs data = none ↔ ∀ d ∈ defs, ¬ d.discriminator <+: data := by
  rw [matchDef, scan_none]
  simp only [← starts_iff, Bool.not_eq_true]

theorem match_order (defs order : List InstructionDef) (perm : order.Perm defs)
    (distinct : (defs.map InstructionDef.discriminator).Nodup) (data : Bytes) : matchDef order data = matchDef defs data :=
  scan_perm _ _ defs order perm (starts_unique defs distinct data)

def PrefixFree (discriminators : List Bytes) : Prop := discriminators.Pairwise fun a b => ¬ a <+: b ∧ ¬ b <+: a

theorem prefix_free_distinct (discriminators : List Bytes) (free : PrefixFree discriminators) : discriminators.Nodup := by
  refine List.Pairwise.imp (fun apart same => ?_) free
  exact apart.1 (same ▸ List.prefix_rfl)

theorem prefix_free_apart (defs : List InstructionDef) (free : PrefixFree (defs.map InstructionDef.discriminator))
    (a b : InstructionDef) (left : a ∈ defs) (right : b ∈ defs) (different : a ≠ b) : ¬ a.discriminator <+: b.discriminator := by
  have pairs := List.pairwise_map.mp free
  have symmetric : Std.Symm fun a b : InstructionDef =>
      ¬ a.discriminator <+: b.discriminator ∧ ¬ b.discriminator <+: a.discriminator := ⟨fun a b both => ⟨both.2, both.1⟩⟩
  exact (pairs.forall left right different).1

theorem match_prefix_free (defs : List InstructionDef) (free : PrefixFree (defs.map InstructionDef.discriminator))
    (d : InstructionDef) (inside : d ∈ defs) (body : Bytes) : matchDef defs (d.discriminator ++ body) = some d := by
  refine (match_longest defs (prefix_free_distinct _ free) _ d).mpr ⟨inside, List.prefix_append _ _, ?_⟩
  intro other member starts
  by_cases same : d = other
  · rw [same]
  · by_contra longer
    have nested := List.prefix_of_prefix_length_le (List.prefix_append d.discriminator body) starts (by omega)
    exact prefix_free_apart defs free d other inside member same nested

end WakeSol.Interface
