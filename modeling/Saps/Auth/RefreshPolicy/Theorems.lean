import Saps.Auth.RefreshPolicy.Replies
import Saps.Auth.Token.Unary

namespace Saps.Auth.RefreshPolicy

open Ping Transition World

section

variable {Role Uuid : Type}

-- Where a row of the next table comes from: it is new, or it was there under the same
-- ids and in use wherever it was renewed, or it was in use and was rotated.
inductive Origin (world : World Uuid) (now : Int) (left : Row Uuid) : Prop
  | created (hnew : left.id ∉ world.issued) (hold : left.oldId = left.id)
  | kept (row : Row Uuid) (hrow : row ∈ world.table) (hsame : SameIdentity row left)
      (hrole : left.role = row.role)
      (hactive : left.lastInteracted = row.lastInteracted ∨ now - minutes 10 ≤ row.lastInteracted)
  | rotated (row : Row Uuid) (hrow : row ∈ world.table) (hnew : left.id ∉ world.issued)
      (hold : left.oldId = row.id) (hrole : left.role = row.role)
      (hactive : now - minutes 10 ≤ row.lastInteracted)

-- Requests ping with ten minutes.
def Regular (command : Command Uuid) : Prop :=
  isPing command = false ∨ ∃ fresh id, command = .ping fresh 10 id

theorem Origin.same {world : World Uuid} {now : Int} {row : Row Uuid} (hrow : row ∈ world.table) :
    Origin world now row :=
  .kept row hrow ⟨rfl, rfl, rfl, rfl⟩ rfl (.inl rfl)

theorem Allowed.of_role [UserRole Role] {checkUserRole : Role → Except SapsError Unit}
    {row left : Row Uuid} (h : Allowed checkUserRole left) (hrole : left.role = row.role) :
    Allowed checkUserRole row := by
  obtain ⟨role, hread, hcheck⟩ := h
  exact ⟨role, hrole ▸ hread, hcheck⟩

variable [DecidableEq Uuid]

theorem ping_origin {world : World Uuid} (valid : world.Valid) {now : Int} {fresh id : Uuid}
    (hfresh : fresh ∉ world.issued) {left : Row Uuid}
    (hleft : left ∈ (world.next now (.ping fresh 10 id)).table) : Origin world now left := by
  rw [next_ping_table] at hleft
  cases hping : (Auth.ping now fresh 10 id world.table).1 with
  | none =>
      rw [valid.rejected hping] at hleft
      exact .same (List.mem_of_mem_filter hleft)
  | some session =>
      obtain ⟨front, row, back, hsplit, _, hactive, haccepts, htable⟩ := valid.accepted hping
      have hrow : row ∈ world.table := by simp [hsplit]
      have hused : now - minutes 10 ≤ row.lastInteracted := Int.not_lt.mp hactive
      rw [htable] at hleft
      rcases List.mem_append.mp hleft with h | h
      · exact .same (by simp [hsplit, h])
      · rcases List.mem_cons.mp h with rfl | h
        · cases haccepts with
          | current _ => exact .kept row hrow (sameIdentity_renew now row) rfl (.inr hused)
          | rotated _ _ => exact .rotated row hrow hfresh rfl rfl hused
          | grace _ _ => exact .kept row hrow (sameIdentity_renew now row) rfl (.inr hused)
        · exact .same (by simp [hsplit, h])

theorem next_origin_row {world : World Uuid} (valid : world.Valid) {now : Int}
    {command : Command Uuid} (hfresh : world.Fresh command) (hregular : Regular command)
    {left : Row Uuid} (hleft : left ∈ (world.next now command).table) :
    Origin world now left := by
  cases command with
  | create id role dateCreated lastInteracted metadata =>
      rcases List.mem_cons.mp hleft with rfl | h
      · exact .created hfresh rfl
      · exact .same h
  | ping fresh' pMinutes id =>
      rcases hregular with hping | ⟨_, _, heq⟩
      · cases hping
      · injection heq with _ hminutes _
        subst hminutes
        exact ping_origin valid hfresh hleft
  | delete gone => exact .same (List.mem_of_mem_filter hleft)
  | updateMeta metadata =>
      obtain ⟨row, hrow, rfl⟩ := List.mem_map.mp hleft
      exact .kept row hrow ⟨rfl, rfl, rfl, rfl⟩ rfl (.inl rfl)

variable [UserRole Role] [UuidText Uuid]

-- What is let through after a command was let through before it.
theorem Admits.back {issues : Prop} {checkUserRole : Role → Except SapsError Unit}
    {world : World Uuid} (valid : world.Valid) {now later : Int} (hlater : now ≤ later)
    {command : Command Uuid} (hfresh : world.Fresh command) (hregular : Regular command)
    {claims : JwtClaims} {id : Uuid} (hissued : id ∈ world.issued) {mode : RefreshMode}
    (h : Admits issues checkUserRole (world.next now command).table later claims id mode) :
    Admits issues checkUserRole world.table now claims id mode := by
  cases h with
  | current left hleft hid hallowed hactive hissues =>
      cases next_origin_row valid hfresh hregular hleft with
      | created hnew _ => exact absurd (hid ▸ hissued) hnew
      | rotated _ _ hnew _ _ _ => exact absurd (hid ▸ hissued) hnew
      | kept row hrow hsame hrole hkept =>
          refine .current row hrow (hsame.1.symm.trans hid) (hallowed.of_role hrole) (by omega) ?_
          intro hcase
          refine hissues (hcase.imp_left fun hdue => ?_)
          rw [hsame.2.2.1]
          omega
  | grace left hleft hid hold hallowed hactive hopen hissues =>
      cases next_origin_row valid hfresh hregular hleft with
      | created _ hsame => exact absurd (hsame.symm.trans hold) hid
      | rotated row hrow _ hreplaced hrole hused =>
          exact .current row hrow (hreplaced.symm.trans hold) (hallowed.of_role hrole) hused
            fun _ => hissues
      | kept row hrow hsame hrole hkept =>
          refine .grace row hrow (hsame.1 ▸ hid) (hsame.2.1.symm.trans hold)
            (hallowed.of_role hrole) (by omega) ?_ hissues
          rw [hsame.2.2.2] at hopen
          omega
  | never left hleft hid hallowed hunexpired =>
      cases next_origin_row valid hfresh hregular hleft with
      | created hnew _ => exact absurd (hid ▸ hissued) hnew
      | rotated _ _ hnew _ _ _ => exact absurd (hid ▸ hissued) hnew
      | kept row hrow hsame hrole _ =>
          exact .never row hrow (hsame.1.symm.trans hid) (hallowed.of_role hrole) (by omega)

theorem Admits.sooner {issues : Prop} {checkUserRole : Role → Except SapsError Unit}
    {world : World Uuid} (valid : world.Valid) {now later : Int} (hlater : now ≤ later)
    {claims : JwtClaims} {id : Uuid} (hissued : id ∈ world.issued) {mode : RefreshMode}
    (h : Admits issues checkUserRole world.table later claims id mode) :
    Admits issues checkUserRole world.table now claims id mode := by
  let idle : Command Uuid := .delete fun _ => false
  have hidle : (world.next now idle).table = world.table := by
    simp [idle, next]
  have hfresh : world.Fresh idle := trivial
  exact Admits.back valid hlater hfresh (.inl rfl) hissued (hidle ▸ h)

omit [DecidableEq Uuid] in
theorem Admits.mono {issues issues' : Prop} {checkUserRole : Role → Except SapsError Unit}
    {table : AuthSessions Uuid} {now : Int} {claims : JwtClaims} {id : Uuid} {mode : RefreshMode}
    (h : Admits issues checkUserRole table now claims id mode) (himp : issues → issues') :
    Admits issues' checkUserRole table now claims id mode := by
  cases h with
  | current row hrow hid hallowed hactive hissues =>
      exact .current row hrow hid hallowed hactive fun hcase => himp (hissues hcase)
  | grace row hrow hid hold hallowed hactive hopen hissues =>
      exact .grace row hrow hid hold hallowed hactive hopen (himp hissues)
  | never row hrow hid hallowed hunexpired => exact .never row hrow hid hallowed hunexpired

variable [Jsonwebtoken]

-- Every step is one regular command.
theorem step_next {config : Config} {before after : Site Role Uuid} {label : Int × Act Role Uuid}
    (h : Step config before label after) :
    before.world.clock ≤ label.1 ∧ ∃ command, before.world.Fresh command ∧
      Regular command ∧ after.world = before.world.next label.1 command := by
  cases h with
  | request now mode checkUserRole headers fresh htime hfresh =>
      obtain ⟨command, hcommand, hregular, hasked⟩ :=
        asked_next Role config mode now headers hfresh
      exact ⟨htime, command, hcommand, hregular.imp id (fun ⟨id, heq⟩ => ⟨fresh, id, heq⟩), hasked⟩
  | other now command htime hfresh hcommand =>
      exact ⟨htime, command, hfresh, .inl hcommand, rfl⟩

theorem run_valid {config : Config} {start finish : Site Role Uuid}
    {trace : List (Int × Act Role Uuid)} (run : Run (Step config) start trace finish)
    (hstart : start.world.Valid) : finish.world.Valid := by
  refine run.invariant (fun site => site.world.Valid) hstart ?_
  intro before label after hbefore hstep
  obtain ⟨_, command, hfresh, _, heq⟩ := step_next hstep
  rw [heq]
  exact next_valid hbefore label.1 command hfresh

-- Who is let through at the end was let through at the start.
theorem run_back {config : Config} {issues : Prop} {checkUserRole : Role → Except SapsError Unit}
    {claims : JwtClaims} {id : Uuid} {mode : RefreshMode} {start finish : Site Role Uuid}
    {trace : List (Int × Act Role Uuid)} (run : Run (Step config) start trace finish)
    (valid : start.world.Valid) (hissued : id ∈ start.world.issued) {later : Int}
    (hlater : finish.world.clock ≤ later)
    (h : Admits issues checkUserRole finish.world.table later claims id mode) :
    Admits issues checkUserRole start.world.table start.world.clock claims id mode := by
  let inv : Site Role Uuid → Prop := fun site => site.world.Valid ∧ id ∈ site.world.issued ∧
    ∀ later, site.world.clock ≤ later →
      Admits issues checkUserRole site.world.table later claims id mode →
        Admits issues checkUserRole start.world.table start.world.clock claims id mode
  have hinv : inv finish := by
    refine run.invariant inv ⟨valid, hissued, fun later hlater => .sooner valid hlater hissued⟩ ?_
    rintro before label after ⟨hvalid, hid, hback⟩ hstep
    obtain ⟨htime, command, hfresh, hregular, heq⟩ := step_next hstep
    simp only [inv, heq, next_clock]
    refine ⟨next_valid hvalid label.1 command hfresh, next_issued hid, ?_⟩
    intro later hlater hadmits
    exact hback label.1 htime (hadmits.back hvalid hlater hfresh hregular hid)
  exact hinv.2.2 later hlater h

omit [Jsonwebtoken] [UuidText Uuid] in
theorem next_anyClock (world : World Uuid) (clock now : Int)
    (command : Command Uuid) :
    ({ world with clock := clock } : World Uuid).next now command = world.next now command := by
  cases command <;> rfl

theorem asked_anyClock (Role : Type) [UserRole Role] (config : Config) (now : Int)
    (headers : HeaderMap) (fresh : Uuid) (world : World Uuid) (clock : Int) :
    asked Role config .auto now headers fresh { world with clock := clock } =
      asked Role config .auto now headers fresh world := by
  simp only [asked]
  cases locateToken headers with
  | error e => rfl
  | ok rawToken =>
      simp only [served]
      cases (presentedId config rawToken : Option Uuid) with
      | none => rfl
      | some id => simp only [next_anyClock]

-- The run without the requests of `NoRefresh` routes, beside the run with them.
structure Shadows (site image : Site Role Uuid) : Prop where
  world : site.world = { image.world with clock := site.world.clock }
  clock : image.world.clock ≤ site.world.clock
  replies : image.replies = site.replies.filter (·.mode = .auto)
  slots : ∀ reply ∈ site.replies, reply.mode = .never → reply.slot = none

theorem Shadows.silent {config : Config} {site after image : Site Role Uuid}
    {label : Int × Act Role Uuid} (shadows : Shadows site image) (h : Step config site label after)
    (hloud : label.2.loud = false) : Shadows after image := by
  cases h with
  | other now command htime hfresh hcommand => simp [Act.loud] at hloud
  | request now mode checkUserRole headers fresh htime hfresh =>
      cases mode with
      | auto => simp [Act.loud] at hloud
      | never =>
          rw [asked_never]
          refine ⟨?_, shadows.clock.trans htime, ?_, ?_⟩
          · rw [shadows.world]
          · simp [List.filter_append, shadows.replies, reply]
          · intro told htold hmode
            rcases List.mem_append.mp htold with hbefore | hlast
            · exact shadows.slots told hbefore hmode
            · rw [List.mem_singleton.mp hlast]
              exact (extract_never Role config now fresh headers site.world.table).1

theorem Shadows.loud {config : Config} {site after image : Site Role Uuid}
    {label : Int × Act Role Uuid} (shadows : Shadows site image) (h : Step config site label after)
    (hloud : label.2.loud = true) : ∃ image', Step config image label image' ∧
      Shadows after image' := by
  have hissued : site.world.issued = image.world.issued := by rw [shadows.world]
  have htable : site.world.table = image.world.table := by rw [shadows.world]
  cases h with
  | other now command htime hfresh hcommand =>
      have hdrawn : image.world.Fresh command := by
        cases command with
        | create id _ _ _ _ => exact fun hid => hfresh (hissued ▸ hid)
        | ping fresh _ _ => exact fun hid => hfresh (hissued ▸ hid)
        | delete => trivial
        | updateMeta => trivial
      have hsame : site.world.next now command = image.world.next now command := by
        rw [shadows.world, next_anyClock]
      refine ⟨_, .other now command (shadows.clock.trans htime) hdrawn hcommand, ?_⟩
      refine ⟨?_, ?_, shadows.replies, shadows.slots⟩
      · rw [hsame]
      · rw [hsame]
  | request now mode checkUserRole headers fresh htime hfresh =>
      cases mode with
      | never => simp [Act.loud] at hloud
      | auto =>
          have hsame : asked Role config .auto now headers fresh site.world =
              asked Role config .auto now headers fresh image.world := by
            rw [shadows.world, asked_anyClock]
          refine ⟨_, .request now .auto checkUserRole headers fresh (shadows.clock.trans htime)
            fun hmode hid => hfresh hmode (hissued ▸ hid), ?_⟩
          refine ⟨?_, ?_, ?_, ?_⟩
          · rw [hsame]
          · rw [hsame]
          · simp [List.filter_append, shadows.replies, reply, htable]
          · intro told htold hmode
            rcases List.mem_append.mp htold with hbefore | hlast
            · exact shadows.slots told hbefore hmode
            · rw [List.mem_singleton.mp hlast] at hmode
              cases hmode

-- Requests of `NoRefresh` routes change no session and no answer to anyone else, and
-- they set no cookie: without them, the same run takes place.
theorem noRefresh_erased (config : Config) (clock : Int) (trace : List (Int × Act Role Uuid))
    (finish : Site Role Uuid) (run : Run (Step config) (Site.empty clock) trace finish) :
    ∃ shadow, Run (Step config) (Site.empty clock) (trace.filter (·.2.loud)) shadow ∧
      finish.world = { shadow.world with clock := finish.world.clock } ∧
      shadow.replies = finish.replies.filter (·.mode = .auto) ∧
      ∀ reply ∈ finish.replies, reply.mode = .never → reply.slot = none := by
  have hstart : Shadows (Site.empty clock : Site Role Uuid) (Site.empty clock) :=
    ⟨rfl, Int.le_refl _, rfl, fun _ h => absurd h List.not_mem_nil⟩
  obtain ⟨shadow, hrun, shadows⟩ := run.erase (fun label : Int × Act Role Uuid => label.2.loud)
    Shadows hstart
    (fun _ _ _ _ shadows h hloud => shadows.silent h hloud)
    (fun _ _ _ _ shadows h hloud => shadows.loud h hloud)
  exact ⟨shadow, hrun, shadows.world, shadows.replies, shadows.slots⟩

variable [LawfulUuidText Uuid] [LawfulJsonwebtoken]

end

-- The session of an administrator, created at time 0.
def adminCommand : Command Nat :=
  .create 1 (UserRole.toStr DefaultRole.admin) 0 0 none

def adminSite : Site DefaultRole Nat :=
  ⟨(World.empty 0).next 0 adminCommand, []⟩

theorem run_adminSite :
    Run (Step Unary.config) (Site.empty 0) [(0, .other adminCommand)] adminSite :=
  .snoc .nil (.other 0 adminCommand (Int.le_refl _) List.not_mem_nil rfl)

-- Its token in the `token` field.
theorem presents_token (expiry : Int) : ∃ headers : HeaderMap,
    Presents Unary.config headers ⟨UuidText.toStr 1, expiry⟩ 1 := by
  have hreadable : Unary.config.Readable 0 := Unary.readable (by decide)
  obtain ⟨token, hencode, _⟩ := hreadable.encode_ok ⟨UuidText.toStr 1, expiry⟩
  obtain ⟨hdecode, hvisible⟩ := encode_visible hencode
  refine ⟨[(HeaderMap.TOKEN, token)], ⟨token, ?_, hdecode⟩, rfl⟩
  have hcookie : HeaderMap.get HeaderMap.COOKIE [(HeaderMap.TOKEN, token)] = none := by
    have hother : HeaderMap.TOKEN ≠ HeaderMap.COOKIE := by decide +kernel
    simp [HeaderMap.get, hother]
  have htoken : HeaderMap.get HeaderMap.TOKEN [(HeaderMap.TOKEN, token)] = some token := by
    simp [HeaderMap.get]
  simp [locateToken, hcookie, extractTokenFromCookies, extractTokenFromHeader, htoken, headerStr,
    hvisible]

-- A request that presents the token leaves no trace.
theorem noRefresh_erased_once : ∃ headers : HeaderMap,
    Presents Unary.config headers ⟨UuidText.toStr 1, 0⟩ 1 ∧ ∃ shadow : Site DefaultRole Nat,
      Run (Step Unary.config) (Site.empty 0) [(0, .other adminCommand)] shadow ∧
        shadow.replies = [] := by
  obtain ⟨headers, hpresents⟩ := presents_token 0
  have hstep : Step Unary.config adminSite (1, .request .never (fun _ => .ok ()) headers 7) _ :=
    .request 1 .never _ headers 7 (by decide) (fun h => by cases h)
  obtain ⟨shadow, hrun, _, hreplies, _⟩ := noRefresh_erased Unary.config 0 _ _
    (run_adminSite.snoc hstep)
  exact ⟨headers, hpresents, shadow, hrun, hreplies⟩

end Saps.Auth.RefreshPolicy
