import Mathlib.Data.List.Basic

/-!
# Keys that are leased again

A system leases keys, and a key that was given back is leased again. Some holders are tenants,
numbered in the order in which they come; the others are not told apart. Notes say which key a
tenant got, and they stay when its lease ends: a note is right until then and afterwards may name
the key of whoever comes next.
-/

namespace HwrunOs.Leases

variable {κ : Type*} {holder later : κ → Option (Option Nat)} {count : Nat} {gone : List Nat}
  {noted notes : Nat → κ → Prop} {tenant : Nat} {key : κ}

/-- What holds of the leases at any time. A key is free, held by a tenant or held by another. -/
structure Leased (holder : κ → Option (Option Nat)) (count : Nat) (gone : List Nat)
    (noted : Nat → κ → Prop) : Prop where
  /-- A note is right until the lease ends. -/
  right : ∀ tenant key, noted tenant key → tenant ∉ gone → holder key = some (some tenant)
  /-- Nothing is held after the end. -/
  ended : ∀ tenant key, holder key = some (some tenant) → tenant ∉ gone
  /-- A tenant holds one key. -/
  single : ∀ tenant key other, holder key = some (some tenant) →
    holder other = some (some tenant) → key = other
  /-- The tenants that hold a key have come. -/
  come : ∀ tenant key, holder key = some (some tenant) → tenant < count
  /-- So have those that are noted. -/
  known : ∀ tenant key, noted tenant key → tenant < count
  /-- So have those that left. -/
  left : ∀ tenant ∈ gone, tenant < count

/-- At the start there is nothing. -/
theorem leased_start : Leased (fun _ : κ => none) 0 [] (fun _ _ => False) where
  right := by simp
  ended := by simp
  single := by simp
  come := by simp
  known := by simp
  left := by simp

/-- Notes can be copied and dropped. -/
theorem Leased.fewer (leased : Leased holder count gone noted)
    (fewer : ∀ tenant key, notes tenant key → noted tenant key) :
    Leased holder count gone notes :=
  { leased with
    right := fun tenant key note => leased.right tenant key (fewer tenant key note)
    known := fun tenant key note => leased.known tenant key (fewer tenant key note) }

/-! ## What a note says -/

/-- A note names the tenant's key exactly until its lease ends. -/
theorem Leased.held_iff (leased : Leased holder count gone noted) (note : noted tenant key) :
    holder key = some (some tenant) ↔ tenant ∉ gone :=
  ⟨leased.ended tenant key, leased.right tenant key note⟩

/-- A note names nobody else's key exactly when the key is free from the end of the lease on. -/
theorem Leased.nobody_iff (leased : Leased holder count gone noted) (note : noted tenant key) :
    (holder key = none ∨ holder key = some (some tenant)) ↔
      (tenant ∈ gone → holder key = none) := by
  constructor
  · rintro (free | held) left
    · exact free
    · exact absurd left (leased.ended tenant key held)
  · intro free
    by_cases left : tenant ∈ gone
    · exact .inl (free left)
    · exact .inr (leased.right tenant key note left)

/-! ## Leases that begin and end -/

/-- The next tenant gets a free key, and notes of it are made. -/
theorem Leased.lease (leased : Leased holder count gone noted) (free : holder key = none)
    (now : later key = some (some count)) (same : ∀ other, other ≠ key → later other = holder other)
    (made : ∀ tenant other, notes tenant other →
      noted tenant other ∨ tenant = count ∧ other = key) :
    Leased later (count + 1) gone notes := by
  have holds : ∀ tenant other, later other = some (some tenant) →
      holder other = some (some tenant) ∨ tenant = count ∧ other = key := by
    intro tenant other held
    by_cases at_key : other = key
    · subst at_key
      rw [now] at held
      exact .inr ⟨(Option.some.inj (Option.some.inj held)).symm, rfl⟩
    · exact .inl (same other at_key ▸ held)
  have stays : ∀ tenant other, holder other = some (some tenant) →
      later other = some (some tenant) := by
    intro tenant other held
    have elsewhere : other ≠ key := by
      rintro rfl
      rw [free] at held
      cases held
    rw [same other elsewhere, held]
  constructor
  · intro tenant other note stayed
    rcases made tenant other note with old | ⟨rfl, rfl⟩
    · exact stays tenant other (leased.right tenant other old stayed)
    · exact now
  · intro tenant other held
    rcases holds tenant other held with old | ⟨rfl, rfl⟩
    · exact leased.ended tenant other old
    · exact fun left => Nat.lt_irrefl _ (leased.left _ left)
  · intro tenant other another held also
    rcases holds tenant other held with old | ⟨rfl, rfl⟩
    · rcases holds tenant another also with second | ⟨rfl, rfl⟩
      · exact leased.single tenant other another old second
      · exact absurd (leased.come _ other old) (Nat.lt_irrefl _)
    · rcases holds _ another also with second | ⟨-, rfl⟩
      · exact absurd (leased.come _ another second) (Nat.lt_irrefl _)
      · rfl
  · intro tenant other held
    rcases holds tenant other held with old | ⟨rfl, rfl⟩
    · exact Nat.lt_succ_of_lt (leased.come tenant other old)
    · exact Nat.lt_succ_self _
  · intro tenant other note
    rcases made tenant other note with old | ⟨rfl, rfl⟩
    · exact Nat.lt_succ_of_lt (leased.known tenant other old)
    · exact Nat.lt_succ_self _
  · exact fun tenant left => Nat.lt_succ_of_lt (leased.left tenant left)

/-- When the keys of the tenants stay, everything stays. -/
theorem Leased.others (leased : Leased holder count gone noted)
    (same : ∀ tenant key, later key = some (some tenant) ↔ holder key = some (some tenant)) :
    Leased later count gone noted where
  right tenant key note stayed := (same tenant key).mpr (leased.right tenant key note stayed)
  ended tenant key held := leased.ended tenant key ((same tenant key).mp held)
  single tenant key other held also :=
    leased.single tenant key other ((same tenant key).mp held) ((same tenant other).mp also)
  come tenant key held := leased.come tenant key ((same tenant key).mp held)
  known := leased.known
  left := leased.left

/-- A key that no tenant holds goes to or comes from somebody who is none. -/
theorem Leased.other (leased : Leased holder count gone noted) (key : κ)
    (before : ∀ tenant, holder key ≠ some (some tenant))
    (after : ∀ tenant, later key ≠ some (some tenant))
    (same : ∀ other, other ≠ key → later other = holder other) :
    Leased later count gone noted := by
  refine leased.others ?_
  intro tenant other
  by_cases at_key : other = key
  · rw [at_key]
    exact ⟨fun held => absurd held (after tenant), fun held => absurd held (before tenant)⟩
  · rw [same other at_key]

/-- A tenant gives its key back. -/
theorem Leased.giveBack (leased : Leased holder count gone noted)
    (held : holder key = some (some tenant)) (now : later key = none)
    (same : ∀ other, other ≠ key → later other = holder other) :
    Leased later count (tenant :: gone) noted := by
  have holds : ∀ other another, later another = some (some other) →
      another ≠ key ∧ holder another = some (some other) := by
    intro other another still
    by_cases at_key : another = key
    · rw [at_key, now] at still
      cases still
    · exact ⟨at_key, same another at_key ▸ still⟩
  constructor
  · intro other another note stayed
    rw [List.mem_cons, not_or] at stayed
    have old := leased.right other another note stayed.2
    have elsewhere : another ≠ key := by
      rintro rfl
      exact stayed.1 (Option.some.inj (Option.some.inj (old.symm.trans held)))
    rw [same another elsewhere, old]
  · intro other another still
    obtain ⟨elsewhere, old⟩ := holds other another still
    rw [List.mem_cons, not_or]
    refine ⟨?_, leased.ended other another old⟩
    rintro rfl
    exact elsewhere (leased.single other another key old held)
  · intro other another third still also
    exact leased.single other another third (holds other another still).2 (holds other third also).2
  · exact fun other another still => leased.come other another (holds other another still).2
  · exact leased.known
  · intro other left
    rcases List.mem_cons.mp left with rfl | old
    · exact leased.come other key held
    · exact leased.left other old

/-- Giving back by a note that names nobody else's key. -/
theorem Leased.giveBackNoted (leased : Leased holder count gone noted) (note : noted tenant key)
    (nobody : holder key = none ∨ holder key = some (some tenant)) (now : later key = none)
    (same : ∀ other, other ≠ key → later other = holder other) :
    Leased later count (tenant :: gone) noted := by
  rcases nobody with free | held
  · have left : tenant ∈ gone := by
      by_contra stayed
      have held := leased.right tenant key note stayed
      rw [free] at held
      cases held
    have unchanged : later = holder := by
      funext other
      by_cases at_key : other = key
      · rw [at_key, now, free]
      · exact same other at_key
    rw [unchanged]
    refine { leased with right := ?_, ended := ?_, left := ?_ }
    · exact fun other another told stayed =>
        leased.right other another told fun old => stayed (.tail _ old)
    · intro other another still again
      rcases List.mem_cons.mp again with rfl | old
      · exact leased.ended _ another still left
      · exact leased.ended other another still old
    · intro other again
      rcases List.mem_cons.mp again with rfl | old
      · exact leased.left _ left
      · exact leased.left other old
  · exact leased.giveBack held now same

end HwrunOs.Leases
