import WakeSol.Interface.Builder
import WakeSol.Lib.Fallible
import WakeSol.Lib.Tally

/- The modules of a generated package: their names, made of the programs' names and
   where those meet of the addresses, the files they are written to, and what
   importing the package registers. -/
set_option autoImplicit false

namespace WakeSol.Gen

open TextLib TallyLib FallibleLib Codec Interface

-- What the interpreter does with text: str.isalnum, isdigit, lower and isidentifier,
-- and the normal form to which it brings a name before it looks it up. Lower case
-- brings forth no underscore.
structure Strings where
  isAlnum : Char → Bool
  isDigit : Char → Bool
  lower : Text → Text
  isIdentifier : Text → Bool
  nfkc : Text → Text
  lowerHead : ∀ text, (lower text).head? = some '_' → text.head? = some '_'
  nfkcTwice : ∀ text, nfkc (nfkc text) = nfkc text

structure Program where
  address : Text
  name : Text
deriving DecidableEq

def stripUnderscores (text : Text) : Text := (text.dropWhile (· == '_')).rdropWhile (· == '_')

def hasDouble : Text → Bool
  | '_' :: '_' :: _ => true
  | _ :: rest => hasDouble rest
  | [] => false

-- slug.replace("__", "_"), and the loop around it.
def squeezeOnce : Text → Text
  | '_' :: '_' :: rest => '_' :: squeezeOnce rest
  | ch :: rest => ch :: squeezeOnce rest
  | [] => []

def squeeze : Nat → Text → Text
  | 0, slug => slug
  | fuel + 1, slug => if hasDouble slug then squeeze fuel (squeezeOnce slug) else slug

theorem squeeze_once_length (slug : Text) :
    (squeezeOnce slug).length + (if hasDouble slug then 1 else 0) ≤ slug.length := by
  induction slug using squeezeOnce.induct with
  | case1 rest ih =>
    simp only [squeezeOnce, hasDouble, if_true, List.length_cons]
    omega
  | case2 ch rest single ih =>
    have same : hasDouble (ch :: rest) = hasDouble rest := by
      rw [hasDouble]
      exact single
    rw [squeezeOnce, same, List.length_cons, List.length_cons]
    · omega
    · exact single
  | case3 => exact le_refl _

theorem squeeze_settled (fuel : Nat) (slug : Text) (enough : slug.length ≤ fuel) : hasDouble (squeeze fuel slug) = false := by
  induction fuel generalizing slug with
  | zero =>
    rw [List.length_eq_zero_iff.mp (Nat.le_zero.mp enough)]
    rfl
  | succ fuel ih =>
    have shorter := squeeze_once_length slug
    rw [squeeze]
    by_cases double : hasDouble slug = true
    · rw [if_pos double] at shorter ⊢
      exact ih _ (by omega)
    · rw [if_neg double]
      exact Bool.eq_false_of_not_eq_true double

theorem squeeze_head (fuel : Nat) (slug : Text) : (squeeze fuel slug).head? = slug.head? := by
  have once : ∀ slug : Text, (squeezeOnce slug).head? = slug.head? := by
    intro slug
    unfold squeezeOnce
    split <;> rfl
  induction fuel generalizing slug with
  | zero => rfl
  | succ fuel ih =>
    rw [squeeze]
    split
    · rw [ih, once]
    · rfl

theorem strip_head (text : Text) : (stripUnderscores text).head? ≠ some '_' := by
  intro found
  have begins := List.rdropWhile_prefix (· == '_') (text.dropWhile (· == '_'))
  obtain ⟨rest, whole⟩ := begins
  have head : (text.dropWhile (· == '_')).head? = some '_' := by
    rw [stripUnderscores] at found
    rw [← whole, List.head?_append, found]
    rfl
  have not := List.head?_dropWhile_not (· == '_') text
  rw [head] at not
  simp at not

def programSlug : Text := ['p', 'r', 'o', 'g', 'r', 'a', 'm']

section names

variable (strings : Strings)

def wordSlug (name : Text) : Text :=
  strings.lower (stripUnderscores (name.map fun ch => if strings.isAlnum ch || ch == '_' then ch else '_'))

def slugify (name : Text) : Text :=
  let slug := squeeze (wordSlug strings name).length (wordSlug strings name)
  let slug := if slug = [] then programSlug else slug
  if (slug.head?.map strings.isDigit).getD false then 'p' :: '_' :: slug else slug

def bySlug (programs : List Program) : Dict Text (List Text) :=
  programs.foldl (fun groups program => groups.set (slugify strings program.name)
    ((groups.get (slugify strings program.name)).getD [] ++ [program.address])) .empty

def suffixed (slug address : Text) : Text := slug ++ '_' :: address.take 6

def nameGroup (slug : Text) (addresses : List Text) : List (Text × Text) :=
  match addresses with
  | [address] => [(address, slug)]
  | addresses => addresses.map fun address => (address, suffixed slug address)

def assignModules (programs : List Program) : Dict Text Text :=
  .of ((bySlug strings programs).entries.flatMap fun group => nameGroup group.1 group.2)

def alike (programs : List Program) (slug : Text) : List Program :=
  programs.filter fun program => slugify strings program.name = slug

def Alone (programs : List Program) (program : Program) : Prop :=
  alike strings programs (slugify strings program.name) = [program]

instance (programs : List Program) (program : Program) : Decidable (Alone strings programs program) :=
  inferInstanceAs (Decidable (_ = _))

def moduleOf (programs : List Program) (program : Program) : Text :=
  if Alone strings programs program then slugify strings program.name
  else suffixed (slugify strings program.name) program.address

variable (programs : List Program)

theorem by_slug_get (slug : Text) : (bySlug strings programs).get slug =
      if alike strings programs slug = [] then none else some ((alike strings programs slug).map Program.address) := by
  induction programs using List.reverseRecOn with
  | nil => rfl
  | append_singleton programs last ih =>
    have grown : bySlug strings (programs ++ [last]) = (bySlug strings programs).set (slugify strings last.name)
        (((bySlug strings programs).get (slugify strings last.name)).getD [] ++ [last.address]) := by
      simp only [bySlug, List.foldl_append, List.foldl_cons, List.foldl_nil]
    rw [grown, get_set]
    by_cases same : slug = slugify strings last.name
    · subst same
      have more : alike strings (programs ++ [last]) (slugify strings last.name) =
          alike strings programs (slugify strings last.name) ++ [last] := by simp [alike]
      rw [if_pos rfl, more, if_neg (by simp), ih]
      split
      · rename_i none
        rw [none]
        rfl
      · simp
    · have apart : slugify strings last.name ≠ slug := fun equal => same equal.symm
      have kept : alike strings (programs ++ [last]) slug = alike strings programs slug := by simp [alike, apart]
      rw [if_neg same, kept, ih]

theorem alike_self (program : Program) (member : program ∈ programs) :
    program ∈ alike strings programs (slugify strings program.name) := List.mem_filter.mpr ⟨member, decide_eq_true rfl⟩

theorem alike_same (slug : Text) (program : Program) (inside : program ∈ alike strings programs slug) :
    program ∈ programs ∧ slugify strings program.name = slug := by
  obtain ⟨member, same⟩ := List.mem_filter.mp inside
  exact ⟨member, of_decide_eq_true same⟩

theorem group_pairs (slug : Text) (pair : Text × Text) :
    pair ∈ nameGroup slug ((alike strings programs slug).map Program.address) ↔
      ∃ program ∈ alike strings programs slug, pair = (program.address, moduleOf strings programs program) := by
  have known := alike_same strings programs slug
  cases group : alike strings programs slug with
  | nil => simp [nameGroup]
  | cons first rest =>
    rw [group] at known
    cases rest with
    | nil =>
      have same := (known first List.mem_cons_self).2
      have alone : Alone strings programs first := by rw [Alone, same, group]
      simp [nameGroup, moduleOf, if_pos alone, same]
    | cons second others =>
      -- With two programs in the group no one is alone in it.
      have name : ∀ program ∈ first :: second :: others, moduleOf strings programs program = suffixed slug program.address := by
        intro program inside
        have shared : ¬Alone strings programs program := by
          rw [Alone, (known program inside).2, group]
          simp
        rw [moduleOf, if_neg shared, (known program inside).2]
      change pair ∈ (((first :: second :: others).map Program.address).map fun address => (address, suffixed slug address)) ↔ _
      rw [List.map_map, List.mem_map]
      refine exists_congr fun program => and_congr_right fun inside => ?_
      rw [name program inside]
      exact eq_comm

theorem assigned_pairs (pair : Text × Text) :
    pair ∈ (bySlug strings programs).entries.flatMap (fun group => nameGroup group.1 group.2) ↔
      ∃ program ∈ programs, pair = (program.address, moduleOf strings programs program) := by
  rw [List.mem_flatMap]
  constructor
  · rintro ⟨⟨slug, addresses⟩, isGroup, inside⟩
    rw [← get_iff, by_slug_get] at isGroup
    split at isGroup
    · cases isGroup
    · obtain rfl := Option.some.inj isGroup
      obtain ⟨program, member, same⟩ := (group_pairs strings programs slug pair).mp inside
      exact ⟨program, (alike_same strings programs slug program member).1, same⟩
  · rintro ⟨program, member, same⟩
    have inside := alike_self strings programs program member
    have found : (bySlug strings programs).get (slugify strings program.name) =
        some ((alike strings programs (slugify strings program.name)).map Program.address) := by
      rw [by_slug_get, if_neg (List.ne_nil_of_mem inside)]
    exact ⟨_, (get_iff _ _ _).mp found, (group_pairs strings programs _ pair).mpr ⟨program, inside, same⟩⟩

section assigned

variable (programs : List Program) (distinct : (programs.map Program.address).Nodup)

include distinct

theorem same_address (left right : Program) (first : left ∈ programs) (second : right ∈ programs)
    (same : left.address = right.address) : left = right := List.inj_on_of_nodup_map distinct first second same

theorem assign_get (program : Program) (member : program ∈ programs) :
    (assignModules strings programs).get program.address = some (moduleOf strings programs program) := by
  refine get_of_agree _ _ _ ?_ fun pair inside same => ?_
  · exact List.mem_map.mpr ⟨_, (assigned_pairs strings programs _).mpr ⟨program, member, rfl⟩, rfl⟩
  · obtain ⟨other, isProgram, rfl⟩ := (assigned_pairs strings programs pair).mp inside
    rw [same_address programs distinct other program isProgram member same]

theorem assign_entries :
    (assignModules strings programs).entries.Perm
      (programs.map fun program => (program.address, moduleOf strings programs program)) := by
  have once : (programs.map fun program => (program.address, moduleOf strings programs program)).Nodup :=
    (List.Nodup.of_map _ distinct).map_on fun left first right second same =>
      same_address programs distinct left right first second (congrArg Prod.fst same)
  rw [List.perm_ext_iff_of_nodup (assignModules strings programs).distinct.of_map once]
  rintro ⟨address, module⟩
  rw [← get_iff, List.mem_map]
  constructor
  · intro found
    obtain ⟨program, member, same⟩ := (assigned_pairs strings programs _).mp (mem_of_get _ _ _ found)
    exact ⟨program, member, same.symm⟩
  · rintro ⟨program, member, same⟩
    cases same
    exact assign_get strings programs distinct program member

end assigned

def Shadows (programs : List Program) (left right : Program) : Prop :=
  Alone strings programs left ∧ ¬Alone strings programs right ∧
    slugify strings left.name = suffixed (slugify strings right.name) right.address

-- How two programs can get one name: the same slug and the same beginning of the
-- address, a slug that looks like another's with its suffix, or two suffixes of
-- different length, for addresses of less than six characters.
def Clash (programs : List Program) (left right : Program) : Prop :=
  (slugify strings left.name = slugify strings right.name ∧ left.address.take 6 = right.address.take 6) ∨
    Shadows strings programs left right ∨ Shadows strings programs right left ∨
    (slugify strings left.name ≠ slugify strings right.name ∧ ¬Alone strings programs left ∧ ¬Alone strings programs right ∧
      suffixed (slugify strings left.name) left.address = suffixed (slugify strings right.name) right.address)

def NoClash (programs : List Program) : Prop :=
  ∀ left ∈ programs, ∀ right ∈ programs, left ≠ right → ¬Clash strings programs left right

theorem shared_slug (left right : Program) (second : right ∈ programs) (apart : left ≠ right)
    (same : slugify strings left.name = slugify strings right.name) : ¬Alone strings programs left := by
  intro alone
  have inside := alike_self strings programs right second
  rw [← same, alone] at inside
  exact apart (List.mem_singleton.mp inside).symm

theorem suffix_same (slug left right : Text) : suffixed slug left = suffixed slug right ↔ left.take 6 = right.take 6 := by
  rw [suffixed, suffixed, List.append_cancel_left_eq, List.cons.injEq]
  exact and_iff_right rfl

theorem module_same_iff (left right : Program) (first : left ∈ programs) (second : right ∈ programs)
    (apart : left ≠ right) :
    moduleOf strings programs left = moduleOf strings programs right ↔ Clash strings programs left right := by
  rw [moduleOf, moduleOf, Clash, Shadows, Shadows]
  by_cases same : slugify strings left.name = slugify strings right.name
  · have sharedLeft := shared_slug strings programs left right second apart same
    have sharedRight := shared_slug strings programs right left first apart.symm same.symm
    rw [if_neg sharedLeft, if_neg sharedRight, same, suffix_same]
    simp [sharedLeft, sharedRight]
  · by_cases aloneLeft : Alone strings programs left
    · by_cases aloneRight : Alone strings programs right
      · simp [aloneLeft, aloneRight, same]
      · simp [aloneLeft, aloneRight, same]
    · by_cases aloneRight : Alone strings programs right
      · simp [aloneLeft, aloneRight, same, eq_comm]
      · simp [aloneLeft, aloneRight, same]

theorem no_clash_iff : NoClash strings programs ↔ ∀ left ∈ programs, ∀ right ∈ programs,
      moduleOf strings programs left = moduleOf strings programs right → left = right := by
  refine forall₂_congr fun left first => forall₂_congr fun right second => ?_
  constructor
  · intro apart same
    by_contra different
    exact apart different ((module_same_iff strings programs left right first second different).mp same)
  · intro injective different clash
    exact different (injective ((module_same_iff strings programs left right first second different).mpr clash))

theorem assigned_distinct_iff (distinct : (programs.map Program.address).Nodup) :
    ((assignModules strings programs).entries.map Prod.snd).Nodup ↔ NoClash strings programs := by
  rw [((assign_entries strings programs distinct).map Prod.snd).nodup_iff, List.map_map, no_clash_iff,
    List.nodup_map_iff_inj_on (List.Nodup.of_map _ distinct)]
  rfl

theorem slug_head (name : Text) : slugify strings name ≠ [] ∧ (slugify strings name).head? ≠ some '_' := by
  have word : (squeeze (wordSlug strings name).length (wordSlug strings name)).head? ≠ some '_' := by
    rw [squeeze_head]
    exact fun found => strip_head _ (strings.lowerHead _ found)
  simp only [slugify]
  generalize squeeze (wordSlug strings name).length (wordSlug strings name) = slug at word ⊢
  have named : (if slug = [] then programSlug else slug) ≠ [] ∧ (if slug = [] then programSlug else slug).head? ≠ some '_' := by
    by_cases empty : slug = []
    · rw [if_pos empty]
      decide
    · rw [if_neg empty]
      exact ⟨empty, word⟩
  generalize (if slug = [] then programSlug else slug) = base at named ⊢
  split
  · exact ⟨by simp, by simp⟩
  · exact named

theorem module_head (program : Program) : (moduleOf strings programs program).head? ≠ some '_' := by
  obtain ⟨filled, head⟩ := slug_head strings program.name
  rw [moduleOf]
  split
  · exact head
  · rw [suffixed, List.head?_append_of_ne_nil _ filled]
    exact head

end names

end WakeSol.Gen
