import Saps.Errors
import Mathlib.Data.List.Nodup

-- The partial unique indexes on keys of `meta`, and the names they get.
namespace Saps.Auth.MetaIndex

-- A key of letters, digits and underscores.
structure Key where
  text : Str
  text_ne_nil : text ≠ []
  text_plain : ∀ c ∈ text, c.isAlphanum = true ∨ c = '_'

-- What a unique index is asked for.
inductive Spec where
  | single (key : Key)
  | pair (first second : Key)

def safe (key : Str) : Str :=
  key.map fun c => if c.isAlphanum then c else '_'

-- `none` for a failed assertion.
def generateUniqueMetaKeySql (key : Str) : Option Str :=
  if key = [] ∨ '\'' ∈ key then none
  else some ("CREATE UNIQUE INDEX IF NOT EXISTS idx_saps_auth_sessions_meta_".toList ++ safe key ++
    " ON saps.auth_sessions ((meta->>'".toList ++ key ++ "')) WHERE meta ? '".toList ++ key ++
    "';\n".toList)

def generateUniqueMetaKeyPairSql (key1 key2 : Str) : Option Str :=
  if key1 = [] ∨ key2 = [] ∨ '\'' ∈ key1 ∨ '\'' ∈ key2 then none
  else some ("CREATE UNIQUE INDEX IF NOT EXISTS idx_saps_auth_sessions_meta_".toList ++ safe key1 ++
    '_' :: safe key2 ++ " ON saps.auth_sessions ((meta->>'".toList ++ key1 ++
    "'), (meta->>'".toList ++ key2 ++ "')) WHERE meta ? '".toList ++ key1 ++
    "' AND meta ? '".toList ++ key2 ++ "';\n".toList)

def Spec.sql : Spec → Option Str
  | single key => generateUniqueMetaKeySql key.text
  | pair first second => generateUniqueMetaKeyPairSql first.text second.text

def create : Str :=
  "CREATE UNIQUE INDEX IF NOT EXISTS ".toList

def stem : Str :=
  "idx_saps_auth_sessions_meta_".toList

-- How Postgres reads a name that is not quoted: it takes the letters for small ones and
-- cuts the name off behind 63 bytes.
def isNameChar (c : Char) : Bool :=
  c.isAlphanum ∨ c = '_' ∨ c = '$'

def identifier (text : Str) : Str :=
  ((text.takeWhile isNameChar).map Char.toLower).take 63

def indexName (sql : Str) : Option Str :=
  if create.isPrefixOf sql then some (identifier (sql.drop create.length)) else none

def Spec.name (spec : Spec) : Option Str :=
  spec.sql.bind indexName

-- The indexes of the schema, each with what it was created for.
abbrev Catalog := List (Str × Spec)

-- `IF NOT EXISTS` skips a name that is taken, whatever took it.
def execute (catalog : Catalog) (spec : Spec) : Catalog :=
  match spec.name with
  | none => catalog
  | some name => if name ∈ catalog.map Prod.fst then catalog else (name, spec) :: catalog

def Enforced (catalog : Catalog) (spec : Spec) : Prop :=
  ∃ name, (name, spec) ∈ catalog

-- What the specification adds to the stem of the names.
def Spec.suffix : Spec → Str
  | single key => key.text
  | pair first second => first.text ++ '_' :: second.text

-- As much of it as is left of 63 bytes.
def Spec.kept (spec : Spec) : Str :=
  (spec.suffix.map Char.toLower).take 35

theorem safe_plain (key : Key) : safe key.text = key.text := by
  have hall : key.text.map (fun c => if c.isAlphanum then c else '_') = key.text.map id := by
    refine List.map_congr_left fun c hc => ?_
    rcases key.text_plain c hc with h | h
    · simp [h]
    · simp [h]
  rw [safe, hall, List.map_id]

theorem unquoted (key : Key) : '\'' ∉ key.text := by
  intro hmem
  have hplain := key.text_plain '\'' hmem
  revert hplain
  decide

theorem suffix_plain (spec : Spec) : ∀ c ∈ spec.suffix, isNameChar c = true := by
  have hkey (key : Key) : ∀ c ∈ key.text, isNameChar c = true := by
    intro c hc
    rcases key.text_plain c hc with h | h <;> simp [isNameChar, h]
  cases spec with
  | single key => exact hkey key
  | pair first second =>
      intro c hc
      rcases List.mem_append.mp hc with hc | hc
      · exact hkey first c hc
      · rcases List.mem_cons.mp hc with rfl | hc
        · decide
        · exact hkey second c hc

theorem exists_sql (spec : Spec) :
    ∃ rest, spec.sql = some (create ++ (stem ++ spec.suffix ++ ' ' :: rest)) := by
  have hhead : "CREATE UNIQUE INDEX IF NOT EXISTS idx_saps_auth_sessions_meta_".toList =
      create ++ stem := by decide +kernel
  have hon : " ON saps.auth_sessions ((meta->>'".toList =
      ' ' :: "ON saps.auth_sessions ((meta->>'".toList := by decide +kernel
  cases spec with
  | single key =>
      refine ⟨"ON saps.auth_sessions ((meta->>'".toList ++ key.text ++ "')) WHERE meta ? '".toList ++
        key.text ++ "';\n".toList, ?_⟩
      rw [Spec.sql, generateUniqueMetaKeySql, if_neg (by simp [key.text_ne_nil, unquoted]), hhead,
        hon, safe_plain]
      simp [Spec.suffix]
  | pair first second =>
      refine ⟨"ON saps.auth_sessions ((meta->>'".toList ++ first.text ++ "'), (meta->>'".toList ++
        second.text ++ "')) WHERE meta ? '".toList ++ first.text ++ "' AND meta ? '".toList ++
        second.text ++ "';\n".toList, ?_⟩
      rw [Spec.sql, generateUniqueMetaKeyPairSql,
        if_neg (by simp [first.text_ne_nil, second.text_ne_nil, unquoted]), hhead, hon, safe_plain,
        safe_plain]
      simp [Spec.suffix]

-- The name is the stem and what is kept of the suffix.
theorem name_eq (spec : Spec) : spec.name = some (stem ++ spec.kept) := by
  obtain ⟨rest, hsql⟩ := exists_sql spec
  have hstem : ∀ c ∈ stem, isNameChar c = true := List.all_eq_true.mp (by decide +kernel)
  have hplain : ∀ c ∈ stem ++ spec.suffix, isNameChar c = true := by
    intro c hc
    rcases List.mem_append.mp hc with hc | hc
    · exact hstem c hc
    · exact suffix_plain spec c hc
  have hlower : stem.map Char.toLower = stem := by decide +kernel
  have hlength : 63 = stem.length + 35 := by decide +kernel
  rw [Spec.name, hsql, Option.bind_some, indexName, if_pos (by simp), List.drop_left, identifier,
    List.takeWhile_append_of_pos hplain, List.takeWhile_cons_of_neg (by decide), List.append_nil,
    List.map_append, hlower, hlength, List.take_length_add_append]
  rfl

theorem name_eq_iff (spec other : Spec) : spec.name = other.name ↔ spec.kept = other.kept := by
  simp [name_eq]

-- Every name is taken once, by a specification that has it.
structure Sound (catalog : Catalog) : Prop where
  names : (catalog.map Prod.fst).Nodup
  named : ∀ entry ∈ catalog, entry.2.name = some entry.1

theorem execute_eq (catalog : Catalog) (spec : Spec) :
    execute catalog spec =
      if stem ++ spec.kept ∈ catalog.map Prod.fst then catalog
      else (stem ++ spec.kept, spec) :: catalog := by
  simp [execute, name_eq]

theorem execute_sound {catalog : Catalog} (h : Sound catalog) (spec : Spec) :
    Sound (execute catalog spec) := by
  rw [execute_eq]
  split
  · exact h
  · next hfree =>
    refine ⟨?_, ?_⟩
    · rw [List.map_cons, List.nodup_cons]
      exact ⟨hfree, h.names⟩
    · intro entry hentry
      rcases List.mem_cons.mp hentry with rfl | hentry
      · exact name_eq spec
      · exact h.named entry hentry

theorem execute_keeps {catalog : Catalog} {spec : Spec} (h : Enforced catalog spec)
    (other : Spec) : Enforced (execute catalog other) spec := by
  obtain ⟨name, hmem⟩ := h
  rw [execute_eq]
  split
  · exact ⟨name, hmem⟩
  · exact ⟨name, List.mem_cons_of_mem _ hmem⟩

theorem foldl_sound {catalog : Catalog} (h : Sound catalog) (specs : List Spec) :
    Sound (specs.foldl execute catalog) := by
  induction specs generalizing catalog with
  | nil => exact h
  | cons spec specs ih => exact ih (execute_sound h spec)

theorem foldl_keeps {catalog : Catalog} {spec : Spec} (h : Enforced catalog spec)
    (specs : List Spec) : Enforced (specs.foldl execute catalog) spec := by
  induction specs generalizing catalog with
  | nil => exact h
  | cons other specs ih => exact ih (execute_keeps h other)

-- A sound catalog has no two specifications of one name.
theorem Sound.apart {catalog : Catalog} (h : Sound catalog) {spec other : Spec}
    (hspec : Enforced catalog spec) (hother : Enforced catalog other)
    (hkept : spec.kept = other.kept) : spec = other := by
  obtain ⟨name, hmem⟩ := hspec
  obtain ⟨name', hmem'⟩ := hother
  have hname : some name = some name' := by
    rw [← h.named _ hmem, ← h.named _ hmem']
    exact (name_eq_iff spec other).mpr hkept
  have hsame := List.inj_on_of_nodup_map h.names hmem hmem' (Option.some.inj hname)
  exact congrArg Prod.snd hsame

theorem foldl_enforces (specs : List Spec) (catalog : Catalog) (h : Sound catalog)
    (hfree : ∀ entry ∈ catalog, ∀ spec ∈ specs, entry.2.kept ≠ spec.kept)
    (hspecs : specs.Pairwise fun spec other => spec.kept ≠ other.kept) :
    ∀ spec ∈ specs, Enforced (specs.foldl execute catalog) spec := by
  induction specs generalizing catalog with
  | nil => simp
  | cons first specs ih =>
      obtain ⟨hfirst, hrest⟩ := List.pairwise_cons.mp hspecs
      have hfresh : stem ++ first.kept ∉ catalog.map Prod.fst := by
        intro hmem
        obtain ⟨entry, hentry, hname⟩ := List.mem_map.mp hmem
        have hnamed := h.named entry hentry
        rw [hname, name_eq] at hnamed
        exact hfree entry hentry first (by simp) (by simpa using hnamed)
      have hadded : execute catalog first = (stem ++ first.kept, first) :: catalog := by
        rw [execute_eq, if_neg hfresh]
      intro spec hspec
      rw [List.foldl_cons]
      rcases List.mem_cons.mp hspec with rfl | hspec
      · exact foldl_keeps ⟨_, by rw [hadded]; exact List.mem_cons_self⟩ specs
      · refine ih _ (execute_sound h first) (fun entry hentry other hother => ?_) hrest spec hspec
        rw [hadded] at hentry
        rcases List.mem_cons.mp hentry with rfl | hentry
        · exact hfirst other hother
        · exact hfree entry hentry other (List.mem_cons_of_mem _ hother)

-- Distinct specifications get distinct names, and none of them is skipped, exactly when
-- no two of them agree in what the names keep of them.
theorem unique_indexes_iff (specs : List Spec) (hspecs : specs.Nodup) :
    ((specs.Pairwise fun spec other => spec.name ≠ other.name) ↔
      specs.Pairwise fun spec other => spec.kept ≠ other.kept) ∧
    ((∀ spec ∈ specs, Enforced (specs.foldl execute []) spec) ↔
      specs.Pairwise fun spec other => spec.kept ≠ other.kept) := by
  have hempty : Sound [] := ⟨List.nodup_nil, by simp⟩
  constructor
  · simp only [ne_eq, name_eq_iff]
  · constructor
    · intro hall
      have hsound := foldl_sound hempty specs
      refine (List.pairwise_iff_forall_sublist.mpr fun {spec other} hsub hkept => ?_)
      have hspec := hall spec (hsub.subset (by simp))
      have hother := hall other (hsub.subset (by simp))
      have hsame := hsound.apart hspec hother hkept
      have hnodup := hspecs.sublist hsub
      simp [hsame] at hnodup
    · exact foldl_enforces specs [] hempty (by simp)

theorem plain_of_all {text : Str} (h : text.all (fun c => c.isAlphanum || c = '_') = true) :
    ∀ c ∈ text, c.isAlphanum = true ∨ c = '_' := by
  simpa using h

def userId : Key :=
  ⟨"user_id".toList, by decide +kernel, plain_of_all (by decide +kernel)⟩

def serverTag : Key :=
  ⟨"server_tag".toList, by decide +kernel, plain_of_all (by decide +kernel)⟩

def joint : Key :=
  ⟨"user_id_server_tag".toList, by decide +kernel, plain_of_all (by decide +kernel)⟩

theorem unique_indexes_iff_documented :
    Enforced ([Spec.single userId, .pair userId serverTag].foldl execute []) (.single userId) ∧
      Enforced ([Spec.single userId, .pair userId serverTag].foldl execute [])
        (.pair userId serverTag) := by
  have hnodup : [Spec.single userId, .pair userId serverTag].Nodup := by simp
  have happart : (Spec.single userId).kept ≠ (Spec.pair userId serverTag).kept := by
    decide +kernel
  have hall := (unique_indexes_iff _ hnodup).2.mpr (List.pairwise_pair.mpr happart)
  exact ⟨hall _ (by simp), hall _ (by simp)⟩

-- The pair of the documentation takes the name of a single key.
theorem unique_indexes_taken :
    Spec.single joint ≠ .pair userId serverTag ∧
      (Spec.single joint).name = (Spec.pair userId serverTag).name ∧
      ¬Enforced ([Spec.single joint, .pair userId serverTag].foldl execute [])
        (.pair userId serverTag) := by
  have hname : (Spec.single joint).kept = (Spec.pair userId serverTag).kept := by decide +kernel
  refine ⟨by simp, (name_eq_iff _ _).mpr hname, ?_⟩
  have hcatalog : [Spec.single joint, .pair userId serverTag].foldl execute [] =
      [(stem ++ (Spec.single joint).kept, .single joint)] := by
    simp [execute_eq, hname]
  rw [hcatalog]
  rintro ⟨name, hmem⟩
  simp at hmem

end Saps.Auth.MetaIndex
