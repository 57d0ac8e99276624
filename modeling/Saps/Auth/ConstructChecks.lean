import Mathlib
import Saps.Auth.Dal

-- What `construct_checks!` makes of a list of variants and its rules.
namespace Saps.Auth

-- The tables of Unicode behind `str::to_lowercase`.
class Unicode where
  lower : Char → Str
  cased : Char → Bool
  caseIgnorable : Char → Bool
  lower_lower : ∀ c, ∀ small ∈ lower c, lower small = [small]
  lower_sigma : lower 'Σ' = ['σ']
  lower_finalSigma : lower 'ς' = ['ς']

section

variable [Unicode]

def caseIgnorableThenCased (text : Str) : Bool :=
  match text.dropWhile Unicode.caseIgnorable with
  | [] => false
  | c :: _ => Unicode.cased c

-- `map_uppercase_sigma`, with what stands before the letter from back to front.
def mapUppercaseSigma (before after : Str) : Char :=
  if caseIgnorableThenCased before && !caseIgnorableThenCased after then 'ς' else 'σ'

def lowercaseBehind (before : Str) : Str → Str
  | [] => []
  | c :: rest =>
    (if c = 'Σ' then [mapUppercaseSigma before rest] else Unicode.lower c) ++
      lowercaseBehind (c :: before) rest

-- `str::to_lowercase`.
def toLowercase (text : Str) : Str :=
  lowercaseBehind [] text

-- Neither a capital sigma nor anything else that `to_lowercase` changes.
def Small (c : Char) : Prop :=
  Unicode.lower c = [c] ∧ c ≠ 'Σ'

theorem not_sigma {c : Char} (h : Unicode.lower c = [c]) : c ≠ 'Σ' := by
  rintro rfl
  rw [Unicode.lower_sigma] at h
  revert h
  decide

theorem small_lowercase (before text : Str) : ∀ c ∈ lowercaseBehind before text, Small c := by
  induction text generalizing before with
  | nil => simp [lowercaseBehind]
  | cons first rest ih =>
      intro c hc
      rw [lowercaseBehind] at hc
      rcases List.mem_append.mp hc with hc | hc
      · split at hc
        · have hsmall : Small 'σ' := by
            have hsigma := Unicode.lower_lower 'Σ' 'σ' (by simp [Unicode.lower_sigma])
            exact ⟨hsigma, not_sigma hsigma⟩
          rw [List.mem_singleton.mp hc]
          unfold mapUppercaseSigma
          split
          · exact ⟨Unicode.lower_finalSigma, by decide⟩
          · exact hsmall
        · have hlower := Unicode.lower_lower first c hc
          exact ⟨hlower, not_sigma hlower⟩
      · exact ih (first :: before) c hc

theorem lowercase_of_small {text : Str} (h : ∀ c ∈ text, Small c) (before : Str) :
    lowercaseBehind before text = text := by
  induction text generalizing before with
  | nil => rfl
  | cons first rest ih =>
      obtain ⟨hlower, hsigma⟩ := h first List.mem_cons_self
      rw [lowercaseBehind, if_neg hsigma, hlower, ih fun c hc => h c (List.mem_cons_of_mem _ hc)]
      rfl

theorem toLowercase_toLowercase (text : Str) : toLowercase (toLowercase text) = toLowercase text :=
  lowercase_of_small (small_lowercase [] text) []

end

-- One of the identifiers that the enum was given.
def Variant (variants : List Str) : Type :=
  { name : Str // name ∈ variants }

namespace Variant

instance (variants : List Str) : DecidableEq (Variant variants) :=
  inferInstanceAs (DecidableEq { name : Str // name ∈ variants })

variable [Unicode] {variants : List Str}

-- `Display`.
def toStr (role : Variant variants) : Str :=
  toLowercase role.val

-- The arms of the match stand in the order of the variants.
def tryFrom (value : Str) : Except SapsError (Variant variants) :=
  match variants.attach.find? fun role => toLowercase value = toLowercase role.val with
  | some role => .ok role
  | none => .error (.badRequest ("Unknown role: ".toList ++ value))

instance : UserRole (Variant variants) :=
  ⟨toStr, tryFrom⟩

-- The check that is generated for a rule.
def checkUserRole (allowed : List (Variant variants)) (role : Variant variants) :
    Except SapsError Unit :=
  let roleStr := toLowercase (toStr role)
  if allowed.any fun other => toLowercase other.val = roleStr then .ok ()
  else .error (.unauthorized "Role does not have sufficient permissions".toList)

-- The check of a session whose row was read back.
def loadedCheck {Uuid : Type} (allowed : List (Variant variants)) (row : Row Uuid) :
    Except SapsError Unit := do
  let session : AuthSession (Variant variants) Uuid ← AuthSession.fromRow row
  checkUserRole allowed session.role

-- No two of the identifiers are the same in small letters.
def Distinct (variants : List Str) : Prop :=
  ∀ left ∈ variants, ∀ right ∈ variants, toLowercase left = toLowercase right → left = right

-- What the match finds is the first variant of that string.
theorem tryFrom_ok {value : Str} {role : Variant variants} (h : tryFrom value = .ok role) :
    toLowercase value = toLowercase role.val := by
  unfold tryFrom at h
  split at h
  · next found heq =>
    obtain rfl := Except.ok.inj h
    simpa using List.find?_some heq
  · contradiction

theorem exists_tryFrom (role : Variant variants) :
    ∃ found : Variant variants, tryFrom (toStr role) = .ok found := by
  unfold tryFrom
  split
  · next found _ => exact ⟨found, rfl⟩
  · next heq =>
    have hnone := List.find?_eq_none.mp heq role (List.mem_attach _ _)
    simp [toStr, toLowercase_toLowercase] at hnone

theorem tryFrom_toStr (h : Distinct variants) (role : Variant variants) :
    tryFrom (toStr role) = .ok role := by
  obtain ⟨found, hfound⟩ := exists_tryFrom role
  have hsame := tryFrom_ok hfound
  rw [toStr, toLowercase_toLowercase] at hsame
  have hrole : role = found := Subtype.ext (h _ role.property _ found.property hsame)
  rw [hfound, hrole]

theorem checkUserRole_ok_iff (h : Distinct variants) (allowed : List (Variant variants))
    (role : Variant variants) : checkUserRole allowed role = .ok () ↔ role ∈ allowed := by
  have hany : (allowed.any fun other => toLowercase other.val = toLowercase (toStr role)) = true ↔
      role ∈ allowed := by
    rw [List.any_eq_true]
    constructor
    · rintro ⟨other, hmem, hsame⟩
      have hnames : toLowercase other.val = toLowercase role.val := by
        simpa [toStr, toLowercase_toLowercase] using hsame
      have hrole : other = role := Subtype.ext (h _ other.property _ role.property hnames)
      exact hrole ▸ hmem
    · exact fun hmem => ⟨role, hmem, by simp [toStr, toLowercase_toLowercase]⟩
  unfold checkUserRole
  dsimp only
  split
  · next hallowed => exact iff_of_true rfl (hany.mp hallowed)
  · next hdenied => exact iff_of_false (by simp) fun hmem => hdenied (hany.mpr hmem)

theorem loadedCheck_eq {Uuid : Type} (allowed : List (Variant variants)) (row : Row Uuid)
    {role : Variant variants} (h : tryFrom row.role = .ok role) :
    loadedCheck allowed row = checkUserRole allowed role := by
  have hparse : (UserRole.tryFrom row.role : Except SapsError (Variant variants)) = .ok role := h
  simp [loadedCheck, AuthSession.fromRow, hparse, bind, Except.bind, pure, Except.pure]

-- Every role survives its string, and a check accepts the stored roles of its rule and
-- no others, exactly when no two variants differ in their capital letters alone.
theorem roles_round_trip_iff (variants : List Str) (Uuid : Type) :
    ((∀ role : Variant variants, tryFrom (toStr role) = .ok role) ∧
      ∀ (allowed : List (Variant variants)) (role : Variant variants) (row : Row Uuid),
        row.role = toStr role → (loadedCheck allowed row = .ok () ↔ role ∈ allowed)) ↔
      Distinct variants := by
  constructor
  · rintro ⟨hround, _⟩ left hleft right hright hsame
    have hstrings := congrArg (tryFrom : Str → Except SapsError (Variant variants)) hsame
    have hfound : (Except.ok ⟨left, hleft⟩ : Except SapsError (Variant variants)) =
        .ok ⟨right, hright⟩ :=
      (hround ⟨left, hleft⟩).symm.trans (hstrings.trans (hround ⟨right, hright⟩))
    exact congrArg Subtype.val (Except.ok.inj hfound)
  · intro h
    refine ⟨tryFrom_toStr h, fun allowed role row hrow => ?_⟩
    rw [loadedCheck_eq allowed row (hrow ▸ tryFrom_toStr h role), checkUserRole_ok_iff h]

end Variant

-- The tables of Unicode, as far as ASCII and the sigmas go.
namespace Ascii

def lower (c : Char) : Str :=
  if c = 'Σ' then ['σ'] else [c.toLower]

theorem lower_of_ne {c : Char} (h : c ≠ 'Σ') : lower c = [c.toLower] :=
  if_neg h

theorem toLower_ne_sigma {c : Char} (h : c ≠ 'Σ') : c.toLower ≠ 'Σ' := by
  simp only [ne_eq, Char.ext_iff, Char.toLower] at h ⊢
  split <;> grind [UInt32.toNat_add]

instance unicode : Unicode where
  lower := lower
  cased c := c.isAlpha || c = 'Σ' || c = 'σ' || c = 'ς'
  caseIgnorable c := c = '\'' || c = '.' || c = ':' || c = '^' || c = '\x60'
  lower_lower c small h := by
    by_cases hsigma : c = 'Σ'
    · rw [hsigma] at h
      rw [List.mem_singleton.mp h]
      decide
    · rw [lower_of_ne hsigma, List.mem_singleton] at h
      rw [h, lower_of_ne (toLower_ne_sigma hsigma), Char.toLower_eq_of_not_isUpper (by simp)]
  lower_sigma := rfl
  lower_finalSigma := by decide

end Ascii

namespace Variant

def spoken : Variant ["Admin".toList, "ADMIN".toList] :=
  ⟨"Admin".toList, by decide⟩

def shouted : Variant ["Admin".toList, "ADMIN".toList] :=
  ⟨"ADMIN".toList, by decide⟩

-- `ADMIN` is stored as `admin`, and that is read back as `Admin`.
theorem roles_merged : ["Admin".toList, "ADMIN".toList].Nodup ∧ spoken ≠ shouted ∧
    tryFrom (toStr shouted) = .ok spoken ∧
    loadedCheck [spoken] (⟨0, 0, toStr shouted, 0, 0, 0, none⟩ : Row Nat) = .ok () := by
  refine ⟨by decide, by decide, ?_, ?_⟩
  · decide +kernel
  · decide +kernel

end Variant

end Saps.Auth
