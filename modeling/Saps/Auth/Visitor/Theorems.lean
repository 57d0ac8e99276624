import Saps.Auth.Visitor.Invariant
import Saps.Auth.Token.Unary

namespace Saps.Auth

open Ping Transition

namespace Visitor

section

variable {Role Uuid : Type}

theorem unmixed_of_idle {visitor : Visitor Role Uuid} {last : Answer Uuid}
    (h : visitor.phase = .idle last) : visitor.Unmixed := by
  intro answer slot setCookies hphase
  rw [h] at hphase
  cases hphase

theorem unmixed_of_handling {visitor : Visitor Role Uuid} {task : Task Role Uuid}
    {slot : Option SetCookie} (h : visitor.phase = .handling task slot) : visitor.Unmixed := by
  intro answer slot setCookies hphase
  rw [h] at hphase
  cases hphase

theorem unmixed_of_empty {visitor : Visitor Role Uuid} {answer : Answer Uuid}
    {setCookies : List SetCookie} (h : visitor.phase = .answered answer none setCookies) :
    visitor.Unmixed := by
  intro answer' slot setCookies' hphase
  rw [h] at hphase
  exact .inl (Phase.answered.inj hphase).2.1.symm

variable [UuidText Uuid] [Jsonwebtoken] {config : Config}
  {visitor : Visitor Role Uuid} [UserRole Role]

theorem Good.received (good : visitor.Good config) (now : Int) {answer : Answer Uuid}
    {slot : Option SetCookie} {setCookies : List SetCookie}
    (hphase : visitor.phase = .answered answer slot setCookies)
    (hunmixed : slot = none ∨ setCookies = []) :
    (visitor.received now answer slot setCookies).Good config := by
  have hlater := good.follow (good.valid.sublist now _ (.refl _))
    (kept_clock visitor.session visitor.world now)
  have hanswered := good.answered hphase
  cases answer with
  | other =>
      obtain ⟨_, rfl, hbound⟩ := hanswered
      exact ⟨hlater.valid, hlater.readable, hlater.issued, hbound.none, hlater.roles, hbound.rows,
        nofun, nofun⟩
  | login id =>
      obtain ⟨_, hsession, ⟨token, rfl, hnames⟩, hrows⟩ := hanswered
      obtain rfl : slot = none := hunmixed.resolve_right (List.cons_ne_nil _ _)
      have hcookie : adopt visitor.cookie (attachRefreshedCookie none
          [AuthTokenCookie.yieldCookieString token]) = some token := rfl
      refine ⟨hlater.valid, hlater.readable, hlater.issued, ?_, hlater.roles, ?_, nofun, ?_⟩
      · intro hnone
        exact absurd (hnone.symm.trans hsession) nofun
      · intro own hown row hrow horigin
        obtain rfl : id = own := Option.some.inj (hsession.symm.trans hown)
        exact ⟨token, hcookie, (hrows row hrow horigin).symm ▸ hnames⟩
      · intro id' h
        obtain rfl := Answer.login.inj h
        exact ⟨hsession, token, hcookie, hnames⟩
  | logout =>
      obtain ⟨_, rfl, hrows⟩ := hanswered
      obtain rfl : slot = none := hunmixed.resolve_right (List.cons_ne_nil _ _)
      refine ⟨hlater.valid, hlater.readable, hlater.issued, fun _ => rfl, hlater.roles, ?_,
        fun _ => rfl, nofun⟩
      intro own hown row hrow horigin
      exact absurd horigin (hrows own hown row hrow)

-- A mixed response leaves the client with the cookie of the layer.
theorem Good.unmixed_of_agrees (good : visitor.Good config) (now : Int) {answer : Answer Uuid}
    {slot : Option SetCookie} {setCookies : List SetCookie}
    (hphase : visitor.phase = .answered answer slot setCookies)
    (hagrees : (visitor.received now answer slot setCookies).Agrees config) :
    slot = none ∨ setCookies = [] := by
  have hanswered := good.answered hphase
  have agreement := hagrees answer rfl
  cases answer with
  | other => exact .inr hanswered.2.1
  | login id =>
      left
      obtain ⟨hfilled, _⟩ := hanswered
      by_contra hslot
      obtain ⟨refreshed, rfl⟩ := Option.ne_none_iff_exists'.mp hslot
      obtain ⟨hheader, token, htoken, hother⟩ := hfilled refreshed rfl
      obtain ⟨_, token', hcookie, hnames⟩ := agreement.login id rfl
      have hkept := adopt_refreshed visitor.cookie hheader htoken setCookies
      obtain rfl : token = token' := Option.some.inj (hkept.symm.trans hcookie)
      exact hother hnames
  | logout =>
      left
      obtain ⟨hfilled, _⟩ := hanswered
      by_contra hslot
      obtain ⟨refreshed, rfl⟩ := Option.ne_none_iff_exists'.mp hslot
      obtain ⟨hheader, token, htoken, _⟩ := hfilled refreshed rfl
      have hkept := adopt_refreshed visitor.cookie hheader htoken setCookies
      exact absurd (hkept.symm.trans (agreement.logout rfl)) nofun

variable [DecidableEq Uuid] [LawfulUuidText Uuid] [LawfulJsonwebtoken]

theorem step_good {before after : Visitor Role Uuid} {label : Int × Act Role Uuid}
    (good : before.Good config) (step : UnmixedStep config before label after) :
    after.Good config := by
  obtain ⟨step, hunmixed, hfits⟩ := step
  cases step with
  | request now route fresh last htime hfresh hphase =>
      exact good.requested hphase (hfits route fresh rfl) route hfresh
  | handle now fresh task slot htime hfresh hphase => exact good.handled now hfresh hphase
  | receive now answer slot setCookies htime hphase =>
      exact good.received now hphase (hunmixed answer slot setCookies hphase)
  | other now command htime hfresh hunpinged =>
      refine good.follow (World.next_valid good.valid now command hfresh) ⟨?_, ?_⟩
      · exact fun id hid => World.next_issued hid
      · intro own hown left hleft horigin
        exact good.valid.next_unpinged now hfresh (good.issued own hown) (hunpinged own hown) hleft
          horigin

-- As long as no response mixes the cookie of the layer with one of the handler, and
-- new tokens can be dated, the client and the server agree, and the first response
-- that does mix them parts them.
theorem cookie_agrees (config : Config) (start finish : Visitor Role Uuid)
    (trace : List (Int × Act Role Uuid)) (hstart : start.Starts)
    (run : Run (UnmixedStep config) start trace finish) :
    finish.Agrees config ∧ ∀ now after, Step config finish (now, .receive) after →
      (after.Agrees config ↔ finish.Unmixed) := by
  have good : finish.Good config :=
    run.invariant (Good config) (starts_good hstart) fun _ _ _ => step_good
  have agrees : ∀ visitor : Visitor Role Uuid, visitor.Good config → visitor.Agrees config := by
    intro visitor hgood last hphase
    have hinPhase := hgood.phase
    rwa [hphase] at hinPhase
  refine ⟨agrees finish good, ?_⟩
  intro now after step
  refine ⟨?_, fun hunmixed => agrees after (step_good good ⟨step, hunmixed, nofun⟩)⟩
  intro hagrees answer slot setCookies hphase
  cases step with
  | receive _ answer' slot' setCookies' htime hphase' =>
      rw [hphase'] at hphase
      obtain ⟨rfl, rfl, rfl⟩ := Phase.answered.inj hphase
      exact good.unmixed_of_agrees now hphase' hagrees

-- A login at 0, up to its response.
theorem logged_in (readable : config.Readable 0) {role role' : Role}
    (hrole : UserRole.tryFrom (UserRole.toStr role) = Except.ok role')
    (hlength : (UserRole.toStr role).length ≤ 255) (own : Uuid) :
    ∃ (start visitor : Visitor Role Uuid) (trace : List (Int × Act Role Uuid)) (token : Str),
      start.Starts ∧ Run (UnmixedStep config) start trace visitor ∧ Names config token own ∧
        visitor = ⟨⟨0, [⟨own, own, UserRole.toStr role, 0, 0, 0, none⟩], [own],
          Function.update id own own, []⟩, some token, some own, .idle (.login own)⟩ := by
  have hnew : own ∉ ([] : AuthSessions Uuid).map Row.id := by simp
  obtain ⟨response, hlogin⟩ := login_accepts readable hrole hlength none hnew
  obtain ⟨htable, _, _, token, hcookie, hnames⟩ := login_ok hlogin
  let start : Visitor Role Uuid := ⟨World.empty 0, none, none, .idle .other⟩
  let opened := start.requested config 0 (.login none role none) own
  let answered := opened.handled config 0 own (.login role none) none
  have hanswered : answered = ⟨⟨0, [⟨own, own, UserRole.toStr role, 0, 0, 0, none⟩], [own],
      Function.update id own own, []⟩, none, some own,
      .answered (.login own) none [AuthTokenCookie.yieldCookieString token]⟩ := by
    have hlogin' : (login config 0 own role none opened.world.table).1 = .ok response := hlogin
    have htable' : (login config 0 own role none opened.world.table).2 = _ := htable
    simp only [answered, Visitor.handled, hlogin', htable', hcookie]
    rfl
  have hopened : opened.phase = .handling (.login role none) none := rfl
  have hphase : answered.phase = .answered (.login own) none
      [AuthTokenCookie.yieldCookieString token] := by rw [hanswered]
  have hclock : answered.world.clock = 0 := by rw [hanswered]
  have hrequest : Step config start (0, .request (.login none role none) own) opened :=
    .request 0 (.login none role none) own .other (Int.le_refl 0) List.not_mem_nil rfl
  have hhandle : Step config opened (0, .handle own) answered :=
    .handle 0 own (.login role none) none (Int.le_refl 0) List.not_mem_nil hopened
  have hreceive : Step config answered (0, .receive) (answered.received 0 (.login own) none
      [AuthTokenCookie.yieldCookieString token]) :=
    .receive 0 (.login own) none _ hclock.le hphase
  refine ⟨start, _, _, token, ⟨0, [], .nil, rfl, rfl, rfl⟩,
    .snoc (.snoc (.snoc .nil ⟨hrequest, unmixed_of_idle rfl, fun _ _ _ => readable.fits⟩)
      ⟨hhandle, unmixed_of_handling hopened, fun _ _ h => by cases h⟩)
      ⟨hreceive, unmixed_of_empty hphase, fun _ _ h => by cases h⟩, hnames, ?_⟩
  rw [hanswered]
  rfl

-- Six minutes later the client logs out. The extractor rotates the session, and
-- its cookie takes the place of the one that was to wipe the token.
theorem logged_out (readable : config.Readable 0) (hfits : config.Fits (minutes 6))
    {role role' : Role}
    (hrole : UserRole.tryFrom (UserRole.toStr role) = Except.ok role')
    (hlength : (UserRole.toStr role).length ≤ 255) {own fresh spare : Uuid} (hne : fresh ≠ own)
    (hspare : spare ∉ [fresh, own]) :
    ∃ (start finish : Visitor Role Uuid) (trace : List (Int × Act Role Uuid)) (token : Str),
      start.Starts ∧ Run (Step config) start trace finish ∧ finish.phase = .idle .logout ∧
        finish.cookie = some token ∧ Names config token fresh := by
  obtain ⟨start, visitor, trace, token, hstart, hrun, hnames, hvisitor⟩ :=
    logged_in readable hrole hlength own
  let row : Row Uuid := ⟨own, own, UserRole.toStr role, 0, 0, 0, none⟩
  let rotated : Row Uuid := Ping.rotate (minutes 6) fresh row
  have hping : ping (minutes 6) fresh 10 own [row] = (some rotated, [rotated]) := by
    have htimedOut : ¬TimedOut (minutes 6) 10 row :=
      show ¬((0 : Int) < minutes 6 - minutes 10) by decide
    have hdue : Due (minutes 6) row := show (0 : Int) < minutes 6 - minutes 5 by decide
    have hgrace : ¬IsGrace own row := fun h => h.1 rfl
    have hhit := ping_hit (minutes 6) fresh 10 own [] [] row (.inl rfl) nofun nofun
    rw [List.nil_append] at hhit
    rw [hhit]
    simp [onRow, htimedOut, hdue, hgrace, rotated]
  obtain ⟨raw, slot, hextraction, _, hunique, hslot⟩ :=
    runAuthExtraction_accepted (readable.later hfits) hnames (congrArg Prod.fst hping) hrole
  have hother : rotated.id ≠ own := hne
  rw [if_neg hother] at hslot
  obtain ⟨newToken, hnewNames, rfl, hheader⟩ := hslot
  rw [hping] at hextraction
  let guard : Guard Role := ⟨.auto, fun _ => .ok ()⟩
  let admitted : HeaderToken Role Uuid :=
    ⟨raw.uniqueId, raw.timeExpire, some raw.session, raw.oldUuid⟩
  let slot := some (AuthTokenCookie.yieldCookieString newToken)
  let asked := visitor.requested config (minutes 6) (.logout guard) fresh
  let answered := asked.handled config (minutes 6) spare (.logout admitted) slot
  let finish := answered.received (minutes 6) .logout slot [AuthTokenCookie.wipeFromCookies]
  have hadmitted : HeaderToken.fromRequestParts guard.checkUserRole (.ok raw) = .ok admitted := rfl
  have hasked : asked = ⟨visitor.world.served config (minutes 6) fresh token [rotated], some token,
      some own, .handling (.logout admitted) slot⟩ := by
    have hcookie : visitor.cookie = some token := by rw [hvisitor]
    have htable : visitor.world.table = [row] := by rw [hvisitor]
    have hsession : visitor.session = some own := by rw [hvisitor]
    simp only [asked, Visitor.requested, Visitor.guarded, hcookie, htable, guard, hextraction,
      hsession, hadmitted, World.extracted, slot]
  have hparse : UuidText.parse admitted.uniqueId = Except.ok fresh := by
    rw [show admitted.uniqueId = UuidText.toStr fresh from hunique, LawfulUuidText.parse_toStr]
  have hanswered : answered.phase = .answered .logout slot [AuthTokenCookie.wipeFromCookies] ∧
      answered.world.clock = minutes 6 := by
    simp only [answered, Visitor.handled, HeaderToken.deleteAuthSession, hparse, and_self]
  have hissued : asked.world.issued = [fresh, own] := by
    obtain ⟨claims, hdecode, hid⟩ := hnames
    have hparse : UuidText.parse claims.uniqueId = Except.ok own := by
      rw [hid, LawfulUuidText.parse_toStr]
    have htable : visitor.world.table = [row] := by rw [hvisitor]
    have hissued : visitor.world.issued = [own] := by rw [hvisitor]
    have hhit : (some rotated).map Row.id = some fresh := rfl
    rw [hasked, World.served, presentedId_parsed hdecode hparse]
    dsimp only
    rw [World.next_ping, htable, hping, World.record, if_pos hhit, hissued]
  have hclock : asked.world.clock = minutes 6 := by
    rw [hasked]
    exact World.served_clock _ _ _ _ _ _
  have hidle : visitor.phase = .idle (.login own) := by rw [hvisitor]
  have hrequest : Step config visitor (minutes 6, .request (.logout guard) fresh) asked := by
    refine .request (minutes 6) (.logout guard) fresh (.login own) ?_ ?_ hidle
    · rw [hvisitor]
      exact show (0 : Int) ≤ minutes 6 by decide
    · rw [hvisitor]
      simpa using hne
  have hhandle : Step config asked (minutes 6, .handle spare) answered := by
    refine .handle (minutes 6) spare (.logout admitted) slot hclock.le ?_ (by rw [hasked])
    rw [hissued]
    exact hspare
  have hreceive : Step config answered (minutes 6, .receive) finish :=
    .receive (minutes 6) .logout slot _ hanswered.2.le hanswered.1
  have hrun' : Run (Step config) start trace visitor := hrun.mono fun _ _ _ h => h.1
  refine ⟨start, finish, _, newToken, hstart,
    .snoc (.snoc (.snoc hrun' hrequest) hhandle) hreceive, rfl, ?_, hnewNames⟩
  exact adopt_refreshed _ hheader rfl _

end

theorem cookie_agrees_login : ∃ finish : Visitor DefaultRole Nat,
    (∃ start trace, start.Starts ∧ Run (UnmixedStep Unary.config) start trace finish) ∧
    finish.session = some 1 ∧ finish.Agrees Unary.config ∧
    ∀ now after, Step Unary.config finish (now, .receive) after →
      (after.Agrees Unary.config ↔ finish.Unmixed) := by
  have hlength : (UserRole.toStr DefaultRole.admin).length ≤ 255 := by decide +kernel
  obtain ⟨start, visitor, trace, token, hstart, hrun, _, hvisitor⟩ :=
    logged_in (Unary.readable (by decide)) (DefaultRole.tryFrom_toStr .admin) hlength 1
  refine ⟨visitor, ⟨start, trace, hstart, hrun⟩, by rw [hvisitor], ?_⟩
  exact cookie_agrees Unary.config start visitor trace hstart hrun

theorem cookie_agrees_logout : ∃ (start finish : Visitor DefaultRole Nat)
    (trace : List (Int × Act DefaultRole Nat)), start.Starts ∧
      Run (Step Unary.config) start trace finish ∧ ¬finish.Agrees Unary.config := by
  have hlength : (UserRole.toStr DefaultRole.admin).length ≤ 255 := by decide +kernel
  obtain ⟨start, finish, trace, token, hstart, hrun, hphase, hcookie, _⟩ :=
    logged_out (Unary.readable (by decide)) (Unary.readable (by decide)).fits
      (DefaultRole.tryFrom_toStr .admin) hlength
      (show (2 : Nat) ≠ 1 by decide) (show 3 ∉ [2, 1] by decide)
  refine ⟨start, finish, trace, hstart, hrun, ?_⟩
  intro hagrees
  have hnone := (hagrees .logout hphase).logout rfl
  rw [hcookie] at hnone
  cases hnone

end Visitor

end Saps.Auth
