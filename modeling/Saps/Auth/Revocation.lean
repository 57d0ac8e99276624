import Saps.Auth.MetaSelection
import Saps.Auth.RefreshPolicy.Theorems

-- The statements that end sessions for good.
namespace Saps.Auth

open Ping Transition

inductive Revocation (Uuid : Type) where
  | session (sessionId : Uuid)
  | metaKey (key : Str) (value : Jsonb)
  | metaKeyPair (key1 : Str) (value1 : Jsonb) (key2 : Str) (value2 : Jsonb)

namespace Revocation

variable {Uuid : Type} [DecidableEq Uuid]

-- What the statement answers, and the table it leaves.
def run : Revocation Uuid → AuthSessions Uuid → Nat × AuthSessions Uuid
  | session sessionId, table =>
    let (deleted, table) := Dal.deleteAuthSession sessionId table
    (deleted.toNat, table)
  | metaKey key value, table => Dal.deleteAuthSessionsByMetaKey key value table
  | metaKeyPair key1 value1 key2 value2, table =>
    Dal.deleteAuthSessionsByMetaKeyPair key1 value1 key2 value2 table

-- Its `WHERE`.
def matched : Revocation Uuid → Row Uuid → Bool
  | session sessionId, row => row.id = sessionId
  | metaKey key value, row => row.metaContains [(key, value)]
  | metaKeyPair key1 value1 key2 value2, row => row.metaContains [(key1, value1), (key2, value2)]

theorem run_table (revocation : Revocation Uuid) (table : AuthSessions Uuid) :
    (revocation.run table).2 = table.filter (! revocation.matched ·) := by
  cases revocation with
  | session sessionId => simp [run, matched, Dal.deleteAuthSession]
  | metaKey key value => rfl
  | metaKeyPair key1 value1 key2 value2 => rfl

-- The id of a row is its own, so one id stands for one row.
theorem run_count (revocation : Revocation Uuid) {table : AuthSessions Uuid}
    (hids : (table.map Row.id).Nodup) :
    (revocation.run table).1 = table.countP revocation.matched := by
  cases revocation with
  | session sessionId =>
      have hone : table.countP (fun row => decide (row.id = sessionId)) ≤ 1 := by
        have hcount := List.nodup_iff_count_le_one.mp hids sessionId
        rw [List.count, List.countP_map] at hcount
        refine (List.countP_congr fun row _ => ?_).trans_le hcount
        simp
      simp only [run, Dal.deleteAuthSession]
      change (decide (0 < table.countP fun row => decide (row.id = sessionId))).toNat =
        table.countP fun row => decide (row.id = sessionId)
      by_cases hnone : table.countP (fun row => decide (row.id = sessionId)) = 0
      · simp [hnone]
      · have hexact : table.countP (fun row => decide (row.id = sessionId)) = 1 := by omega
        simp [hexact]
  | metaKey key value => rfl
  | metaKeyPair key1 value1 key2 value2 => rfl

def revoked {Role : Type} (revocation : Revocation Uuid) (now : Int)
    (site : RefreshPolicy.Site Role Uuid) : RefreshPolicy.Site Role Uuid :=
  ⟨{ site.world with clock := now, table := (revocation.run site.world.table).2 }, site.replies⟩

end Revocation

namespace RefreshPolicy

section

variable {Role Uuid : Type}

-- No row of the session is left.
def Ended (session : Uuid) (world : World Uuid) : Prop :=
  ∀ row ∈ world.table, world.origin row.id ≠ session

theorem Ended.next [DecidableEq Uuid] {world : World Uuid} {session : Uuid}
    (ended : Ended session world) (valid : world.Valid) (hsession : session ∈ world.issued)
    (now : Int) {command : Command Uuid}
    (hfresh : world.Fresh command) : Ended session (world.next now command) := by
  intro left hleft horigin
  obtain ⟨row, hrow, hrowOrigin, _⟩ := valid.next_back now hfresh hsession hleft horigin
  exact ended row hrow hrowOrigin

variable [UserRole Role] [UuidText Uuid]

-- A request of a session that has ended is refused under both policies.
theorem Ended.refused {issues : Prop} {checkUserRole : Role → Except SapsError Unit}
    {world : World Uuid} (valid : world.Valid) {session id : Uuid} (ended : Ended session world)
    (horigin : world.origin id = session) {now : Int} {claims : JwtClaims} {mode : RefreshMode} :
    ¬Admits issues checkUserRole world.table now claims id mode := by
  intro h
  cases h with
  | current row hrow hid _ _ _ => exact ended row hrow (hid ▸ horigin)
  | grace row hrow _ hold _ _ _ _ =>
      exact ended row hrow ((valid.sameOrigin row hrow).symm.trans (hold ▸ horigin))
  | never row hrow hid _ _ => exact ended row hrow (hid ▸ horigin)

variable [DecidableEq Uuid] [Jsonwebtoken]

theorem Ended.run {config : Config} {session : Uuid} {start finish : Site Role Uuid}
    {trace : List (Int × Act Role Uuid)} (ended : Ended session start.world)
    (run : Run (Step config) start trace finish) (valid : start.world.Valid)
    (hsession : session ∈ start.world.issued) : Ended session finish.world := by
  let inv : Site Role Uuid → Prop := fun site =>
    site.world.Valid ∧ session ∈ site.world.issued ∧ Ended session site.world
  have hinv : inv finish := by
    refine run.invariant inv ⟨valid, hsession, ended⟩ ?_
    rintro before label after ⟨hvalid, hissued, hended⟩ hstep
    obtain ⟨_, command, hfresh, _, heq⟩ := step_next hstep
    simp only [inv, heq]
    exact ⟨World.next_valid hvalid label.1 command hfresh, World.next_issued hissued,
      hended.next hvalid hissued label.1 hfresh⟩
  exact hinv.2.2

variable [LawfulUuidText Uuid] [LawfulJsonwebtoken]

-- Whatever statement ends a session and whatever else happens then, none of the ids that
-- the session ever had is let through again. No other row is touched.
theorem revoked_forever (config : Config) (clock : Int) (trace : List (Int × Act Role Uuid))
    (site : Site Role Uuid) (run : Run (Step config) (Site.empty clock) trace site)
    (revocation : Revocation Uuid) (now : Int) (rest : List (Int × Act Role Uuid))
    (finish : Site Role Uuid)
    (continued : Run (Step config) (revocation.revoked now site) rest finish) :
    (revocation.run site.world.table).1 = site.world.table.countP revocation.matched ∧
      (∀ row ∈ site.world.table, revocation.matched row = false →
        row ∈ (revocation.revoked now site).world.table) ∧
      ∀ row ∈ site.world.table, revocation.matched row = true →
        ∀ mode checkUserRole headers later fresh, fresh ∉ finish.world.issued →
          ∀ claims id, Presents config headers claims id →
            finish.world.origin id = site.world.origin row.id → ∀ token,
              (reply config mode checkUserRole later headers fresh finish.world.table).answer ≠
                (.ok token : Except SapsError (HeaderToken Role Uuid)) := by
  have valid : site.world.Valid := run_valid run (World.valid_empty clock)
  have htable := revocation.run_table site.world.table
  have hvalid : (revocation.revoked now site).world.Valid := by
    unfold Revocation.revoked
    rw [htable]
    exact valid.sublist now _ List.filter_sublist
  have hids : (site.world.table.map Row.id).Nodup := by
    have horigins : (site.world.table.map fun row => site.world.origin row.id) =
        (site.world.table.map Row.id).map site.world.origin := by
      rw [List.map_map]
      rfl
    exact List.Nodup.of_map site.world.origin (horigins ▸ valid.separated)
  refine ⟨revocation.run_count hids, ?_, ?_⟩
  · intro row hrow hmatched
    simp only [Revocation.revoked, htable]
    exact List.mem_filter.mpr ⟨hrow, by simp [hmatched]⟩
  · intro row hrow hmatched mode checkUserRole headers later fresh hfresh claims id hpresents horigin
      token htoken
    have hended : Ended (site.world.origin row.id) (revocation.revoked now site).world := by
      intro left hleft hsame
      simp only [Revocation.revoked, htable] at hleft hsame
      obtain ⟨hmem, hkept⟩ := List.mem_filter.mp hleft
      rw [valid.row_unique hmem hrow hsame, hmatched] at hkept
      cases hkept
    have hissued : site.world.origin row.id ∈ (revocation.revoked now site).world.issued :=
      valid.originIssued _ (valid.idIssued row hrow)
    have hfinish := run_valid continued hvalid
    obtain ⟨claims', id', hpresents', hadmits⟩ :=
      (replied_iff hfinish mode checkUserRole later headers fun _ => hfresh).mp ⟨token, htoken⟩
    obtain ⟨rfl, rfl⟩ := hpresents.unique hpresents'
    exact (hended.run continued hvalid hissued).refused hfinish horigin hadmits

end

-- The session of the administrator, logged out. Then another one is begun, and the old
-- token is presented twice.
theorem revoked_forever_admin : ∃ headers, ∃ finish : Site DefaultRole Nat,
    Run (Step Unary.config) ((Revocation.session 1).revoked 0 adminSite)
      [(0, .other (.create 2 (UserRole.toStr DefaultRole.admin) 0 0 none)),
        (0, .request .never (fun _ => .ok ()) headers 7)] finish ∧
    ∀ token : HeaderToken DefaultRole Nat, (reply Unary.config .auto (fun _ => .ok ()) 1 headers 8
      finish.world.table).answer ≠ .ok token := by
  obtain ⟨headers, hpresents⟩ := presents_token 5
  let command : Command Nat := .create 2 (UserRole.toStr DefaultRole.admin) 0 0 none
  let begun : Site DefaultRole Nat :=
    ⟨((Revocation.session 1).revoked 0 adminSite).world.next 0 command, []⟩
  let asking : Act DefaultRole Nat := .request .never (fun _ => .ok ()) headers 7
  let finish : Site DefaultRole Nat :=
    ⟨asked DefaultRole Unary.config .never 0 headers 7 begun.world,
    [reply Unary.config .never (fun _ => .ok ()) 0 headers 7 begun.world.table]⟩
  have hworld : finish.world = begun.world :=
    asked_never DefaultRole Unary.config 0 headers 7 begun.world
  have hbegin : Step Unary.config ((Revocation.session 1).revoked 0 adminSite) (0, .other command)
      begun := by
    have hfresh : 2 ∉ ((Revocation.session 1).revoked 0 adminSite).world.issued := by decide
    exact .other 0 command (by decide) hfresh rfl
  have hask : Step Unary.config begun (0, asking) finish :=
    .request 0 .never _ headers 7 (by decide) (fun h => by cases h)
  have hrun : Run (Step Unary.config) ((Revocation.session 1).revoked 0 adminSite)
      ([] ++ [(0, .other command)] ++ [(0, asking)]) finish := (Run.nil.snoc hbegin).snoc hask
  have hrow : (⟨1, 1, UserRole.toStr DefaultRole.admin, 0, 0, 0, none⟩ : Row Nat) ∈
      adminSite.world.table := List.mem_singleton_self _
  refine ⟨headers, finish, hrun, ?_⟩
  refine (revoked_forever Unary.config 0 _ adminSite run_adminSite (.session 1) 0 _ finish
    hrun).2.2 _ hrow rfl .auto _ headers 1 8 ?_ _ 1 hpresents ?_
  · rw [hworld]
    decide
  · rw [hworld]
    rfl

end RefreshPolicy

end Saps.Auth
