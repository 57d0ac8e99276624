import Saps.Scheduled.Scheduler.Liveness

-- Every occurrence of a schedule gets to the queue, or an error says why it does not.
namespace Saps.Scheduled

open Transition

variable {Uuid : Type} [DecidableEq Uuid]

namespace System

section

variable {cron : Cron} (endless : @Endless (System Uuid) _ (Step cron))

-- An instance that goes on for ever.
def Lives (actor : Nat) : Prop :=
  ∀ time, ∃ later, time ≤ later ∧ (endless.label later).2.advances = some actor

-- The last step took the row from the table: to an instance, or nobody was told.
def ClaimedBy (row : ScheduledTask Uuid) (later : Nat) : Prop :=
  ∃ last, later = last + 1 ∧
    ((∃ actor due, (endless.label last).2 = .claim actor due ∧
      (endless.state later).Holds actor row) ∨
      (endless.state last).Drops cron row (endless.label last))

-- The last step put the occurrence on the queue, or it dropped the row.
def SettledBy (row : ScheduledTask Uuid) (moment : Int) (later : Nat) : Prop :=
  ∃ last, later = last + 1 ∧ ((endless.state last).Drops cron row (endless.label last) ∨
    ∃ queued, Queues row moment (endless.label last).1 (endless.state last) (endless.state later)
      queued)

variable {endless}

theorem clock_mono {time later : Nat} (h : time ≤ later) :
    (endless.state time).clock ≤ (endless.state later).clock := by
  induction later, h using Nat.le_induction with
  | base => exact le_rfl
  | succ later hle ih =>
      obtain ⟨hclock, left, _, hafter⟩ := endless.next later
      rw [hafter]
      exact ih.trans hclock

-- A schedule is claimed as soon as it is due and an instance that goes on gets to it.
theorem free_claimed (good : ∀ time, (endless.state time).Good cron)
    (hkeeps : ∀ time, Keeps (endless.label time).2)
    (hclock : ∀ bound, ∃ time, bound ≤ (endless.state time).clock) {live : Nat}
    (hlive : Lives endless live) {row : ScheduledTask Uuid} (hfree : row.locked = false)
    {moment : Int} (htime : row.timeScheduled = some moment) {time : Nat}
    (hrow : row ∈ (endless.state time).store.schedules.rows) :
    ∃ later > time, ClaimedBy endless row later := by
  have hstay : ∀ now, row ∈ (endless.state now).store.schedules.rows →
      ClaimedBy endless row (now + 1) ∨ row ∈ (endless.state (now + 1)).store.schedules.rows := by
    intro now hnow
    rcases step_free (good now) (hkeeps now) (endless.next now) hnow hfree with
      hkept | hclaimed | ⟨hisDue, actor, hlabel⟩
    · exact .inr hkept
    · exact .inl ⟨now, rfl, .inl hclaimed⟩
    · exact .inl ⟨now, rfl, .inr (drops_failed hlabel hnow hisDue)⟩
  obtain ⟨reached, hreached⟩ := hclock moment
  have hlater : ∀ now, reached ≤ now → isDue (endless.label now).1 row = true := by
    intro now hafter
    have hbefore := (endless.next now).1
    have hmono : (endless.state reached).clock ≤ (endless.state now).clock := clock_mono hafter
    exact isDue_iff.mpr ⟨hfree, moment, htime, by omega⟩
  -- The claim of an instance that gets to it takes the row.
  have hclaims : ∀ now, reached ≤ now → row ∈ (endless.state now).store.schedules.rows →
      (endless.label now).2.advances = some live → ClaimedBy endless row (now + 1) ∨
        ((endless.state (now + 1)).instances live).rank <
          ((endless.state now).instances live).rank := by
    intro now hafter hnow hadvances
    rcases step_advances (endless.next now) hadvances with ⟨due, hlabel, _⟩ | hlower
    · refine .inl ⟨now, rfl, .inl ⟨live, due, hlabel, ?_⟩⟩
      exact claim_holds (endless.next now) hlabel hnow (hlater now hafter)
    · exact .inr hlower
  have hfalls : ∀ now, (reached ≤ now ∧ row ∈ (endless.state now).store.schedules.rows) →
      ClaimedBy endless row (now + 1) ∨
        ((reached ≤ now + 1 ∧ row ∈ (endless.state (now + 1)).store.schedules.rows) ∧
          ((endless.state (now + 1)).instances live).rank ≤
            ((endless.state now).instances live).rank) := by
    rintro now ⟨hafter, hnow⟩
    rcases hstay now hnow with hclaimed | hkept
    · exact .inl hclaimed
    · by_cases hadvances : (endless.label now).2.advances = some live
      · rcases hclaims now hafter hnow hadvances with hclaimed | hlower
        · exact .inl hclaimed
        · exact .inr ⟨⟨by omega, hkept⟩, hlower.le⟩
      · refine .inr ⟨⟨by omega, hkept⟩, ?_⟩
        by_cases hstop : (endless.label now).2 = .stop live
        · rw [step_stopped (endless.next now) hstop]
          exact Nat.zero_le _
        · rw [step_other (endless.next now) hadvances hstop]
  have hhelps : ∀ now, (reached ≤ now ∧ row ∈ (endless.state now).store.schedules.rows) →
      ∃ later, now ≤ later ∧
        ((reached ≤ later ∧ row ∈ (endless.state later).store.schedules.rows) →
          ClaimedBy endless row (later + 1) ∨
            ((endless.state (later + 1)).instances live).rank <
              ((endless.state later).instances live).rank) := by
    intro now _
    obtain ⟨later, hle, hadvances⟩ := hlive now
    exact ⟨later, hle, fun hwaits => hclaims later hwaits.1 hwaits.2 hadvances⟩
  rcases waits_till hstay (Nat.le_max_left time reached) hrow with
    ⟨later, hafter, _, hclaimed⟩ | hwaits
  · exact ⟨later, hafter, hclaimed⟩
  · obtain ⟨later, hafter, hclaimed⟩ := served_eventually
      (fun now => reached ≤ now ∧ row ∈ (endless.state now).store.schedules.rows)
      (ClaimedBy endless row) (fun now => ((endless.state now).instances live).rank) hfalls hhelps
      ⟨Nat.le_max_right time reached, hwaits⟩
    exact ⟨later, by omega, hclaimed⟩

-- An instance that has a row settles it, or is stopped.
theorem held_settled (good : ∀ time, (endless.state time).Good cron) {row : ScheduledTask Uuid}
    {moment : Int} (htime : row.timeScheduled = some moment) {actor time : Nat}
    (hgoes : Lives endless actor ∨ ∃ later ≥ time, (endless.label later).2 = .stop actor)
    (h : (endless.state time).Holds actor row) :
    ∃ later > time, SettledBy endless row moment later := by
  have hstay : ∀ now, (endless.state now).Holds actor row →
      SettledBy endless row moment (now + 1) ∨ (endless.state (now + 1)).Holds actor row := by
    intro now hnow
    rcases step_holds (good now) (endless.next now) htime hnow with hdrops | hqueues | hkept
    · exact .inl ⟨now, rfl, .inl hdrops⟩
    · exact .inl ⟨now, rfl, .inr hqueues⟩
    · exact .inr hkept
  have hstop : ∀ now, (endless.state now).Holds actor row → (endless.label now).2 = .stop actor →
      SettledBy endless row moment (now + 1) := by
    intro now hnow hlabel
    exact ⟨now, rfl, .inl (drops_stopped hlabel hnow)⟩
  rcases hgoes with hlive | ⟨last, hlast, hlabel⟩
  · have hrank : ∀ now, (endless.state now).Holds actor row → (endless.label now).2 ≠ .stop actor →
        ((endless.label now).2.advances = some actor →
          ((endless.state (now + 1)).instances actor).rank <
            ((endless.state now).instances actor).rank) ∧
        ((endless.label now).2.advances ≠ some actor →
          ((endless.state (now + 1)).instances actor).rank ≤
            ((endless.state now).instances actor).rank) := by
      intro now hnow hgoesOn
      refine step_holds_rank (endless.next now) ?_ hgoesOn
      intro hsleeping
      rw [Holds, hsleeping] at hnow
      cases hnow
    refine served_eventually (fun now => (endless.state now).Holds actor row)
      (SettledBy endless row moment) (fun now => ((endless.state now).instances actor).rank) ?_ ?_ h
    · intro now hnow
      rcases hstay now hnow with hsettled | hkept
      · exact .inl hsettled
      · by_cases hlabel : (endless.label now).2 = .stop actor
        · exact .inl (hstop now hnow hlabel)
        · refine .inr ⟨hkept, ?_⟩
          by_cases hadvances : (endless.label now).2.advances = some actor
          · exact ((hrank now hnow hlabel).1 hadvances).le
          · exact (hrank now hnow hlabel).2 hadvances
    · intro now _
      obtain ⟨later, hle, hadvances⟩ := hlive now
      refine ⟨later, hle, fun hnow => .inr ((hrank later hnow ?_).1 hadvances)⟩
      intro hlabel
      rw [hlabel] at hadvances
      cases hadvances
  · rcases waits_till hstay hlast h with ⟨later, hafter, _, hsettled⟩ | hstill
    · exact ⟨later, hafter, hsettled⟩
    · exact ⟨last + 1, by omega, hstop last hstill hlabel⟩

-- A schedule that is free gets to the queue or is dropped.
theorem free_settled (good : ∀ time, (endless.state time).Good cron)
    (hkeeps : ∀ time, Keeps (endless.label time).2)
    (hclock : ∀ bound, ∃ time, bound ≤ (endless.state time).clock) {live : Nat}
    (hlive : Lives endless live)
    (hgoes : ∀ time actor due, (endless.label time).2 = .claim actor due →
      Lives endless actor ∨ ∃ later > time, (endless.label later).2 = .stop actor)
    {row : ScheduledTask Uuid} (hfree : row.locked = false) {moment : Int}
    (htime : row.timeScheduled = some moment) {time : Nat}
    (hrow : row ∈ (endless.state time).store.schedules.rows) :
    (∃ later ≥ time, ∃ queued, Queues row moment (endless.label later).1 (endless.state later)
      (endless.state (later + 1)) queued) ∨
      ∃ later ≥ time, (endless.state later).Unposted row moment ∧
        (endless.state later).Drops cron row (endless.label later) := by
  obtain ⟨_, hafter, last, rfl, ⟨actor, due, hlabel, hholds⟩ | hdrops⟩ :=
    free_claimed good hkeeps hclock hlive hfree htime hrow
  · obtain ⟨_, hlater, before, rfl, hdrops | ⟨queued, hqueues⟩⟩ :=
      held_settled good htime (hgoes last actor due hlabel) hholds
    · exact .inr ⟨before, by omega, drops_unposted (good before) htime hdrops, hdrops⟩
    · exact .inl ⟨before, by omega, queued, hqueues⟩
  · exact .inr ⟨last, by omega, drops_unposted (good last) htime hdrops, hdrops⟩

end

end System

end Saps.Scheduled
