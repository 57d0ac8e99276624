import Saps.Lib.Rekey

-- A map keyed by names beside a map keyed by what the names mean.
namespace Naming

variable {Name Key Value : Type} [DecidableEq Name] [DecidableEq Key] {meaning : Name → Key}

-- Every stored key has one name, and holds what the name holds.
structure Names (meaning : Name → Key) (named : HashMap Name Value) (map : HashMap Key Value) :
    Prop where
  unique : ∀ left ∈ named.keys, ∀ right ∈ named.keys, meaning left = meaning right → left = right
  sound : ∀ name value, named.lookup name = some value → map.lookup (meaning name) = some value
  complete : ∀ key value, map.lookup key = some value →
    ∃ name, meaning name = key ∧ named.lookup name = some value

-- Nothing is stored under another name of the same meaning.
def Spelled (meaning : Name → Key) (named : HashMap Name Value) (name : Name) : Prop :=
  ∀ other ∈ named.keys, meaning other = meaning name → other = name

instance (named : HashMap Name Value) (name : Name) : Decidable (Spelled meaning named name) :=
  inferInstanceAs (Decidable (∀ other ∈ named.keys, meaning other = meaning name → other = name))

theorem mem_of_lookup {map : HashMap Key Value} {key : Key} {value : Value}
    (h : map.lookup key = some value) : key ∈ map.keys :=
  (map.mem_keys key).mpr (Option.isSome_iff_exists.mpr ⟨value, h⟩)

theorem lookup_of_mem {map : HashMap Key Value} {key : Key} (h : key ∈ map.keys) :
    ∃ value, map.lookup key = some value :=
  Option.isSome_iff_exists.mp ((map.mem_keys key).mp h)

namespace Names

variable {named : HashMap Name Value} {map : HashMap Key Value}

-- The order in which the keys are met plays no part.
theorem congr {map' : HashMap Key Value} (h : Names meaning named map)
    (hmap : map'.lookup = map.lookup) : Names meaning named map' := by
  refine ⟨h.unique, ?_, ?_⟩
  · rw [hmap]
    exact h.sound
  · rw [hmap]
    exact h.complete

theorem mem_iff (h : Names meaning named map) (key : Key) :
    key ∈ map.keys ↔ ∃ name ∈ named.keys, meaning name = key := by
  constructor
  · intro hkey
    obtain ⟨value, hvalue⟩ := lookup_of_mem hkey
    obtain ⟨name, hname, hlookup⟩ := h.complete key value hvalue
    exact ⟨name, mem_of_lookup hlookup, hname⟩
  · rintro ⟨name, hname, rfl⟩
    obtain ⟨value, hvalue⟩ := lookup_of_mem hname
    exact mem_of_lookup (h.sound name value hvalue)

-- A name finds what its meaning finds, unless the file stands under another name.
theorem lookup_eq_iff (h : Names meaning named map) (name : Name) :
    named.lookup name = map.lookup (meaning name) ↔ Spelled meaning named name := by
  constructor
  · intro heq other hother hmeaning
    obtain ⟨value, hvalue⟩ := lookup_of_mem hother
    have hname : named.lookup name = some value := by
      rw [heq, ← hmeaning]
      exact h.sound other value hvalue
    exact h.unique other hother name (mem_of_lookup hname) hmeaning
  · intro hspelled
    cases hlookup : map.lookup (meaning name) with
    | none =>
        cases hname : named.lookup name with
        | none => rfl
        | some value => rw [h.sound name value hname] at hlookup; contradiction
    | some value =>
        obtain ⟨other, hmeaning, hother⟩ := h.complete _ value hlookup
        rw [← hspelled other (mem_of_lookup hother) hmeaning]
        exact hother

theorem insert (h : Names meaning named map) (name : Name) (value : Value)
    (hspelled : Spelled meaning named name) :
    Names meaning (named.insert name value) (map.insert (meaning name) value) := by
  have hmem (other : Name) (hother : other ∈ (named.insert name value).keys) :
      other = name ∨ other ∈ named.keys := by
    obtain ⟨found, hfound⟩ := lookup_of_mem hother
    rw [HashMap.lookup_insert] at hfound
    split at hfound
    · next heq => exact .inl heq
    · exact .inr (mem_of_lookup hfound)
  refine ⟨?_, ?_, ?_⟩
  · intro left hleft right hright hmeaning
    rcases hmem left hleft with hfirst | hfirst
    · rcases hmem right hright with hsecond | hsecond
      · rw [hfirst, hsecond]
      · rw [hfirst] at hmeaning ⊢
        exact (hspelled right hsecond hmeaning.symm).symm
    · rcases hmem right hright with hsecond | hsecond
      · rw [hsecond] at hmeaning ⊢
        exact hspelled left hfirst hmeaning
      · exact h.unique left hfirst right hsecond hmeaning
  · intro other found hfound
    rw [HashMap.lookup_insert] at hfound ⊢
    split at hfound
    · next heq => rw [if_pos (congrArg meaning heq), hfound]
    · next hne =>
      rw [if_neg fun heq => hne (hspelled other (mem_of_lookup hfound) heq)]
      exact h.sound other found hfound
  · intro key found hfound
    rw [HashMap.lookup_insert] at hfound
    split at hfound
    · next heq =>
      refine ⟨name, heq.symm, ?_⟩
      rw [HashMap.lookup_insert, if_pos rfl, hfound]
    · next hne =>
      obtain ⟨other, hmeaning, hother⟩ := h.complete key found hfound
      refine ⟨other, hmeaning, ?_⟩
      rw [HashMap.lookup_insert, if_neg fun heq => hne (by rw [← hmeaning, heq])]
      exact hother

theorem erase (h : Names meaning named map) (name : Name) (hspelled : Spelled meaning named name) :
    Names meaning (named.erase name) (map.erase (meaning name)) := by
  have hmem (other : Name) (hother : other ∈ (named.erase name).keys) : other ∈ named.keys := by
    obtain ⟨found, hfound⟩ := lookup_of_mem hother
    rw [HashMap.lookup_erase] at hfound
    split at hfound
    · contradiction
    · exact mem_of_lookup hfound
  refine ⟨?_, ?_, ?_⟩
  · intro left hleft right hright
    exact h.unique left (hmem left hleft) right (hmem right hright)
  · intro other found hfound
    rw [HashMap.lookup_erase] at hfound ⊢
    split at hfound
    · contradiction
    · next hne =>
      rw [if_neg fun heq => hne (hspelled other (mem_of_lookup hfound) heq)]
      exact h.sound other found hfound
  · intro key found hfound
    rw [HashMap.lookup_erase] at hfound
    split at hfound
    · contradiction
    · next hne =>
      obtain ⟨other, hmeaning, hother⟩ := h.complete key found hfound
      refine ⟨other, hmeaning, ?_⟩
      rw [HashMap.lookup_erase, if_neg fun heq => hne (by rw [← hmeaning, heq])]
      exact hother

theorem removed {names : List Name} {keys : List Key} (h : Names meaning named map)
    (hnames : ∀ name, name ∈ names ↔ name ∈ named.keys ∧ meaning name ∈ keys) :
    Names meaning (names.foldl (fun left name => left.erase name) named)
      (keys.foldl (fun left key => left.erase key) map) := by
  have hkept (name : Name) (value : Value)
      (hvalue : (names.foldl (fun left name => left.erase name) named).lookup name = some value) :
      name ∉ names ∧ named.lookup name = some value := by
    rw [HashMap.lookup_foldl_erase] at hvalue
    split at hvalue
    · contradiction
    · next hout => exact ⟨hout, hvalue⟩
  refine ⟨?_, ?_, ?_⟩
  · intro left hleft right hright
    obtain ⟨first, hfirst⟩ := lookup_of_mem hleft
    obtain ⟨second, hsecond⟩ := lookup_of_mem hright
    exact h.unique left (mem_of_lookup (hkept left first hfirst).2) right
      (mem_of_lookup (hkept right second hsecond).2)
  · intro name value hvalue
    obtain ⟨hout, hlookup⟩ := hkept name value hvalue
    rw [HashMap.lookup_foldl_erase, if_neg fun hkey =>
      hout ((hnames name).mpr ⟨mem_of_lookup hlookup, hkey⟩)]
    exact h.sound name value hlookup
  · intro key value hvalue
    rw [HashMap.lookup_foldl_erase] at hvalue
    split at hvalue
    · contradiction
    · next hout =>
      obtain ⟨name, rfl, hname⟩ := h.complete key value hvalue
      refine ⟨name, rfl, ?_⟩
      rw [HashMap.lookup_foldl_erase, if_neg fun hin => hout ((hnames name).mp hin).2]
      exact hname

-- The names of some keys move as the keys do, where the new names clash with no
-- other name that stays.
theorem moved {keep : Prop} {new : Name → Name} {newKey : Key → Key} {names : List Name}
    {keys : List Key} {named' : HashMap Name Value} {map' : HashMap Key Value}
    (h : Names meaning named map)
    (hnames : ∀ name, name ∈ names ↔ name ∈ named.keys ∧ meaning name ∈ keys)
    (hkeys : ∀ key ∈ keys, key ∈ map.keys)
    (hnew : ∀ name ∈ names, meaning (new name) = newKey (meaning name))
    (hapart : HashMap.Apart newKey keys)
    (hspelled : ∀ name ∈ names, ∀ other ∈ named.keys, keep ∨ other ∉ names →
      meaning other = meaning (new name) → other = new name)
    (hnamed : HashMap.Moved keep new names named named')
    (hmap : HashMap.Moved keep newKey keys map map') : Names meaning named' map' := by
  refine ⟨?_, ?_, ?_⟩
  · intro left hleft right hright hmeaning
    obtain ⟨first, hfirst⟩ := lookup_of_mem hleft
    obtain ⟨second, hsecond⟩ := lookup_of_mem hright
    rcases (hnamed left first).mp hfirst with ⟨old, hold, rfl, _⟩ | ⟨hkept, hnot, hleft⟩
    · rcases (hnamed right second).mp hsecond with ⟨other, hother, rfl, _⟩ | ⟨hkept, _, hright⟩
      · rw [hnew old hold, hnew other hother] at hmeaning
        have hsame := hapart.distinct _ ((hnames old).mp hold).2 _ ((hnames other).mp hother).2
          hmeaning
        rw [h.unique old ((hnames old).mp hold).1 other ((hnames other).mp hother).1 hsame]
      · exact (hspelled old hold right (mem_of_lookup hright) hkept hmeaning.symm).symm
    · rcases (hnamed right second).mp hsecond with ⟨other, hother, rfl, _⟩ | ⟨_, _, hright⟩
      · exact hspelled other hother left (mem_of_lookup hleft) hkept hmeaning
      · exact h.unique left (mem_of_lookup hleft) right (mem_of_lookup hright) hmeaning
  · intro name value hvalue
    rw [hmap]
    rcases (hnamed name value).mp hvalue with ⟨old, hold, rfl, hlookup⟩ | ⟨hkept, hnot, hlookup⟩
    · exact .inl ⟨meaning old, ((hnames old).mp hold).2, (hnew old hold).symm,
        h.sound old value hlookup⟩
    · have hmem := mem_of_lookup hlookup
      refine .inr ⟨?_, ?_, h.sound name value hlookup⟩
      · exact hkept.imp_right fun hout hkey => hout ((hnames name).mpr ⟨hmem, hkey⟩)
      · intro key hkey heq
        obtain ⟨old, hold, rfl⟩ := (h.mem_iff key).mp (hkeys key hkey)
        have hin : old ∈ names := (hnames old).mpr ⟨hold, hkey⟩
        have hclash := hspelled old hin name hmem hkept (by rw [hnew old hin, heq])
        exact hnot old hin hclash.symm
  · intro key value hvalue
    rcases (hmap key value).mp hvalue with ⟨old, hold, rfl, hlookup⟩ | ⟨hkept, hnot, hlookup⟩
    · obtain ⟨name, rfl, hname⟩ := h.complete old value hlookup
      have hin : name ∈ names := (hnames name).mpr ⟨mem_of_lookup hname, hold⟩
      exact ⟨new name, hnew name hin, (hnamed _ _).mpr (.inl ⟨name, hin, rfl, hname⟩)⟩
    · obtain ⟨name, rfl, hname⟩ := h.complete key value hlookup
      refine ⟨name, rfl, (hnamed _ _).mpr (.inr ⟨?_, ?_, hname⟩)⟩
      · exact hkept.imp_right fun hout hin => hout ((hnames name).mp hin).2
      · intro old hin heq
        exact hnot _ ((hnames old).mp hin).2 (by rw [← hnew old hin, heq])

-- Names are as far apart as what they mean.
theorem apart {new : Name → Name} {newKey : Key → Key} {names : List Name} {keys : List Key}
    (h : Names meaning named map)
    (hnames : ∀ name, name ∈ names ↔ name ∈ named.keys ∧ meaning name ∈ keys)
    (hnew : ∀ name ∈ names, meaning (new name) = newKey (meaning name))
    (hapart : HashMap.Apart newKey keys) : HashMap.Apart new names := by
  refine ⟨?_, ?_⟩
  · intro left hleft right hright heq
    have hsame := hapart.distinct _ ((hnames left).mp hleft).2 _ ((hnames right).mp hright).2
      (by rw [← hnew left hleft, ← hnew right hright, heq])
    exact h.unique left ((hnames left).mp hleft).1 right ((hnames right).mp hright).1 hsame
  · intro left hleft right hright heq
    have hsame := hapart.unchained _ ((hnames left).mp hleft).2 _ ((hnames right).mp hright).2
      (by rw [← hnew left hleft, heq])
    exact h.unique left ((hnames left).mp hleft).1 right ((hnames right).mp hright).1 hsame

end Names

-- A map by names that says one thing of each meaning is one by meanings as well.
theorem exists_names (named : HashMap Name Value) (hunique : ∀ left ∈ named.keys,
    ∀ right ∈ named.keys, meaning left = meaning right → left = right) :
    ∃ map : HashMap Key Value, Names meaning named map := by
  have hfront (names : List Name) (hnames : ∀ name ∈ names, name ∈ named.keys) :
      ∃ map : HashMap Key Value, ∀ key value, map.lookup key = some value ↔
        ∃ name ∈ names, meaning name = key ∧ named.lookup name = some value := by
    induction names with
    | nil => exact ⟨.new, by simp⟩
    | cons name names ih =>
        obtain ⟨hname, hnames⟩ := List.forall_mem_cons.mp hnames
        obtain ⟨map, hmap⟩ := ih hnames
        obtain ⟨found, hfound⟩ := lookup_of_mem hname
        refine ⟨map.insert (meaning name) found, ?_⟩
        intro key value
        rw [HashMap.lookup_insert]
        split
        · next heq =>
          constructor
          · intro hvalue
            exact ⟨name, List.mem_cons_self, heq.symm, hfound.trans hvalue⟩
          · rintro ⟨other, hother, hmeaning, hvalue⟩
            have hstored : other ∈ named.keys := mem_of_lookup hvalue
            rw [hunique other hstored name hname (hmeaning.trans heq), hfound] at hvalue
            exact hvalue
        · next hne =>
          rw [hmap key value]
          constructor
          · rintro ⟨other, hother, hrest⟩
            exact ⟨other, List.mem_cons_of_mem _ hother, hrest⟩
          · rintro ⟨other, hother, hmeaning, hvalue⟩
            rcases List.mem_cons.mp hother with rfl | hother
            · exact absurd hmeaning.symm hne
            · exact ⟨other, hother, hmeaning, hvalue⟩
  obtain ⟨map, hmap⟩ := hfront named.keys fun name hname => hname
  refine ⟨map, hunique, ?_, ?_⟩
  · intro name value hvalue
    exact (hmap _ value).mpr ⟨name, mem_of_lookup hvalue, rfl, hvalue⟩
  · intro key value hvalue
    obtain ⟨name, _, hmeaning, hname⟩ := (hmap key value).mp hvalue
    exact ⟨name, hmeaning, hname⟩

end Naming
