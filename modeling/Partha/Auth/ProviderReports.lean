import Partha.Auth.Providers

/-!
# Reported Identities

The clients of Google and GitHub return exactly what their providers report, and fail with
an error of their own iff every answer on the way can be walked.

What is reported is said without the order of the requests: which answers say what, which
key a token names, which address is taken. So is what the walks need. The requests are then
taken one after the other, and every one adds what its answer says.

## Theorems

* `resolveGoogle_eq_ok`, `resolveGithub_eq_ok`: An identity is what is reported.
* `resolveGoogle_raises`, `resolveGithub_raises`: When every failure is an
  `OAuthProviderError`.
-/

namespace Partha

namespace Providers

open Checked

section Google

variable {Key : Type} {lib : Library Key} {world : World} {c : Credentials} {a : Arguments}

variable {idToken jwks : Json} {key claims : Object}

theorem googleExchange_eq_ok :
    googleExchange lib world c a = .ok (idToken, jwks) ↔
      GoogleToken lib world c a idToken ∧ Says lib world googleJwksRequest jwks := by
  unfold googleExchange
  rw [objectAnswer_eq_ok]
  constructor
  · rintro ⟨fields, hfields, h⟩
    by_cases htoken : truthy lib (get fields "id_token") = true
    · rw [if_pos htoken] at h
      rcases bind_eq_ok.mp h with ⟨jwks', hjwks, h⟩
      rcases Prod.mk.inj (Except.ok.inj h) with ⟨rfl, rfl⟩
      exact ⟨⟨fields, hfields, rfl, htoken⟩, jsonAnswer_eq_ok.mp hjwks⟩
    · rw [if_neg htoken] at h
      cases h
  · rintro ⟨⟨fields, hfields, rfl, htoken⟩, hjwks⟩
    refine ⟨fields, hfields, ?_⟩
    rw [if_pos htoken]
    exact bind_eq_ok.mpr ⟨jwks, jsonAnswer_eq_ok.mpr hjwks, rfl⟩

theorem googleExchange_raises :
    RaisesOnly Translated (googleExchange lib world c a) ↔
      SaysObject lib world (googleTokenRequest c a) ∧
        ∀ idToken, GoogleToken lib world c a idToken → Legible lib world googleJwksRequest := by
  unfold googleExchange
  rw [objectAnswer_raises, and_iff_right (show Sendable (googleTokenRequest c a) from trivial)]
  refine and_congr_right ?_
  intro _
  constructor
  · rintro h idToken ⟨fields, hfields, rfl, htoken⟩
    have hf := h fields hfields
    rw [if_pos htoken, raisesOnly_bind, jsonAnswer_raises] at hf
    exact hf.1.2
  · intro h fields hfields
    by_cases htoken : truthy lib (get fields "id_token") = true
    · rw [if_pos htoken, raisesOnly_bind, jsonAnswer_raises]
      exact ⟨⟨trivial, h _ ⟨fields, hfields, rfl, htoken⟩⟩, fun _ _ => raisesOnly_ok _ _⟩
    · rw [if_neg htoken]
      exact raisesOnly_error.mpr (.inr ⟨_, rfl⟩)

theorem decodeWith_eq_ok :
    decodeWith lib c idToken key = .ok claims ↔
      ∃ publicKey, lib.fromJwk key = some publicKey ∧ lib.isPublic publicKey = true ∧
        lib.decode idToken publicKey ["RS256"] c.clientId googleIssuers = some claims := by
  unfold decodeWith
  cases lib.fromJwk key with
  | none =>
    refine iff_of_false (fun h => by cases h) ?_
    rintro ⟨publicKey, h, -⟩
    cases h
  | some publicKey =>
    simp only [Option.some.injEq, exists_eq_left']
    by_cases hpublic : lib.isPublic publicKey = true
    · rw [if_pos hpublic, and_iff_right hpublic]
      cases lib.decode idToken publicKey ["RS256"] c.clientId googleIssuers with
      | none =>
        constructor
        · intro h
          cases h
        · intro h
          cases h
      | some claims' => exact ⟨fun h => congrArg some (Except.ok.inj h),
          fun h => congrArg Except.ok (Option.some.inj h)⟩
    · rw [if_neg hpublic]
      exact iff_of_false (fun h => by cases h) (fun h => hpublic h.1)

theorem decodeWith_raises : RaisesOnly IsProviderError (decodeWith lib c idToken key) := by
  unfold decodeWith
  cases lib.fromJwk key with
  | none => exact raisesOnly_error.mpr ⟨_, rfl⟩
  | some publicKey =>
    dsimp only
    by_cases hpublic : lib.isPublic publicKey = true
    · rw [if_pos hpublic]
      cases lib.decode idToken publicKey ["RS256"] c.clientId googleIssuers with
      | none => exact raisesOnly_error.mpr ⟨_, rfl⟩
      | some claims => exact raisesOnly_ok _ _
    · rw [if_neg hpublic]
      exact raisesOnly_error.mpr ⟨_, rfl⟩

theorem verifyGoogleIdToken_eq_ok :
    verifyGoogleIdToken lib c idToken jwks = .ok claims ↔ Verifies lib c idToken jwks claims := by
  unfold verifyGoogleIdToken
  constructor
  · intro h
    cases hkid : lib.unverifiedKid idToken with
    | none =>
      rw [hkid] at h
      cases h
    | some kid =>
      rw [hkid] at h
      rcases bind_eq_ok.mp h with ⟨fields, hfields, h⟩
      rcases bind_eq_ok.mp h with ⟨keys, hkeys, h⟩
      rcases bind_eq_ok.mp h with ⟨matching, hmatching, h⟩
      cases matching with
      | none => cases h
      | some key =>
        rcases decodeWith_eq_ok.mp h with ⟨publicKey, hpublic⟩
        exact ⟨kid, fields, keys, key, publicKey, hkid, asObject_eq_ok.mp hfields, hkeys,
          firstWhere_eq_some.mp hmatching, hpublic⟩
  · rintro ⟨kid, fields, keys, key, publicKey, hkid, rfl, hkeys, hmatching, hpublic⟩
    rw [hkid]
    refine bind_eq_ok.mpr ⟨fields, rfl, bind_eq_ok.mpr ⟨keys, hkeys, ?_⟩⟩
    refine bind_eq_ok.mpr ⟨some key, firstWhere_eq_some.mpr hmatching, ?_⟩
    exact decodeWith_eq_ok.mpr ⟨publicKey, hpublic⟩

theorem verifyGoogleIdToken_raises :
    RaisesOnly IsProviderError (verifyGoogleIdToken lib c idToken jwks) ↔
      ∀ kid, lib.unverifiedKid idToken = some kid → KeysReadable kid jwks := by
  unfold verifyGoogleIdToken
  cases lib.unverifiedKid idToken with
  | none => exact iff_of_true (raisesOnly_error.mpr ⟨_, rfl⟩) (fun kid h => by cases h)
  | some kid =>
    simp only [Option.some.injEq, forall_eq']
    rw [raisesOnly_bind, asObject_raises narrow_provider]
    constructor
    · rintro ⟨⟨fields, rfl⟩, h⟩
      have hfields := h fields rfl
      rw [raisesOnly_bind, iterate_raises narrow_provider] at hfields
      rcases hfields with ⟨⟨keys, hkeys⟩, h⟩
      refine ⟨fields, keys, rfl, hkeys, ?_⟩
      exact (firstWhere_raises narrow_provider _ _).mp (raisesOnly_bind.mp (h keys hkeys)).1
    · rintro ⟨fields, keys, rfl, hkeys, hreadable⟩
      refine ⟨⟨fields, rfl⟩, ?_⟩
      intro fields' hfields
      rw [← Except.ok.inj hfields, raisesOnly_bind, iterate_raises narrow_provider]
      refine ⟨⟨keys, hkeys⟩, ?_⟩
      intro keys' hkeys'
      rw [hkeys] at hkeys'
      rw [← Except.ok.inj hkeys', raisesOnly_bind, firstWhere_raises narrow_provider]
      refine ⟨hreadable, ?_⟩
      intro matching _
      cases matching with
      | none => exact raisesOnly_error.mpr ⟨_, rfl⟩
      | some key => exact decodeWith_raises

/-- Google's client returns what Google reports. -/
theorem resolveGoogle_eq_ok {identity : IdentityInfo} :
    resolveGoogle lib world c a = .ok identity ↔ GoogleReports lib world c a identity := by
  unfold resolveGoogle
  rw [bind_eq_ok]
  constructor
  · rintro ⟨⟨idToken, jwks⟩, hexchange, h⟩
    rcases googleExchange_eq_ok.mp (translate_eq_ok.mp hexchange) with ⟨htoken, hjwks⟩
    rcases bind_eq_ok.mp h with ⟨claims, hclaims, h⟩
    by_cases hnonce : sameText (get claims "nonce") (a.nonce.map text) = true
    · rw [if_pos hnonce] at h
      by_cases hsub : truthy lib (get claims "sub") = true
      · rw [if_pos hsub] at h
        exact ⟨claims, ⟨idToken, jwks, htoken, hjwks, verifyGoogleIdToken_eq_ok.mp hclaims, hnonce,
          hsub⟩, (Except.ok.inj h).symm⟩
      · rw [if_neg hsub] at h
        cases h
    · rw [if_neg hnonce] at h
      cases h
  · rintro ⟨claims, ⟨idToken, jwks, htoken, hjwks, hclaims, hnonce, hsub⟩, rfl⟩
    refine ⟨(idToken, jwks), translate_eq_ok.mpr (googleExchange_eq_ok.mpr ⟨htoken, hjwks⟩), ?_⟩
    refine bind_eq_ok.mpr ⟨claims, verifyGoogleIdToken_eq_ok.mpr hclaims, ?_⟩
    rw [if_pos hnonce, if_pos hsub]

/-- Google's client fails only with its own error iff the answers can be walked. -/
theorem resolveGoogle_raises :
    RaisesOnly IsProviderError (resolveGoogle lib world c a) ↔ GoogleReadable lib world c a := by
  unfold resolveGoogle
  rw [raisesOnly_bind, raisesOnly_translate ⟨_, rfl⟩]
  have hexchange : RaisesOnly Translated (googleExchange lib world c a) ↔
      SaysObject lib world (googleTokenRequest c a) ∧
        ∀ idToken, GoogleToken lib world c a idToken → Legible lib world googleJwksRequest :=
    googleExchange_raises
  constructor
  · rintro ⟨hraises, h⟩
    rcases hexchange.mp hraises with ⟨htoken, hjwks⟩
    refine ⟨htoken, hjwks, ?_⟩
    intro idToken jwks kid hidToken hsays hkid
    have hok := googleExchange_eq_ok.mpr ⟨hidToken, hsays⟩
    have hverify := (raisesOnly_bind.mp (h (idToken, jwks) (translate_eq_ok.mpr hok))).1
    exact verifyGoogleIdToken_raises.mp hverify kid hkid
  · intro h
    refine ⟨hexchange.mpr ⟨h.token, h.jwks⟩, ?_⟩
    rintro ⟨idToken, jwks⟩ hok
    rcases googleExchange_eq_ok.mp (translate_eq_ok.mp hok) with ⟨hidToken, hsays⟩
    rw [raisesOnly_bind]
    refine ⟨verifyGoogleIdToken_raises.mpr (fun kid => h.keys idToken jwks kid hidToken hsays), ?_⟩
    intro claims _
    by_cases hnonce : sameText (get claims "nonce") (a.nonce.map text) = true
    · rw [if_pos hnonce]
      by_cases hsub : truthy lib (get claims "sub") = true
      · rw [if_pos hsub]
        exact raisesOnly_ok _ _
      · rw [if_neg hsub]
        exact raisesOnly_error.mpr ⟨_, rfl⟩
    · rw [if_neg hnonce]
      exact raisesOnly_error.mpr ⟨_, rfl⟩

end Google

section Github

variable {Key : Type} {lib : Library Key} {world : World} {c : Credentials} {a : Arguments}
variable {accessToken : Json} {user : Object}

variable {r : Response} {identity : IdentityInfo}

theorem fallbackEmail_eq_ok :
    fallbackEmail lib user r = .ok identity ↔
      (r.statusCode = 200 ∧ ∃ v entries entry, lib.loads r.content = some v ∧
          iterate v = .ok entries ∧ FirstWhere (isPrimaryVerified lib) entries entry ∧
          identity = githubIdentity lib user (get entry "email") true) ∨
        (r.statusCode = 200 → ∃ v entries, lib.loads r.content = some v ∧
          iterate v = .ok entries ∧
          ∀ x ∈ entries, ∃ o, x = .object o ∧ isPrimaryVerified lib o = false) ∧
          identity = githubIdentity lib user (get user "email") false := by
  unfold fallbackEmail
  by_cases hstatus : r.statusCode = 200
  · rw [if_pos hstatus]
    constructor
    · intro h
      rcases bind_eq_ok.mp h with ⟨v, hv, h⟩
      rcases bind_eq_ok.mp h with ⟨entries, hentries, h⟩
      rcases bind_eq_ok.mp h with ⟨found, hfound, h⟩
      have hloads := json_eq_ok.mp hv
      cases found with
      | some entry => exact .inl ⟨hstatus, v, entries, entry, hloads, hentries,
          firstWhere_eq_some.mp hfound, (Except.ok.inj h).symm⟩
      | none => exact .inr ⟨fun _ => ⟨v, entries, hloads, hentries,
          firstWhere_eq_none.mp hfound⟩, (Except.ok.inj h).symm⟩
    · rintro (⟨-, v, entries, entry, hloads, hentries, hfirst, rfl⟩ | ⟨h, rfl⟩)
      · refine bind_eq_ok.mpr ⟨v, json_eq_ok.mpr hloads, ?_⟩
        refine bind_eq_ok.mpr ⟨entries, hentries, ?_⟩
        exact bind_eq_ok.mpr ⟨some entry, firstWhere_eq_some.mpr hfirst, rfl⟩
      · rcases h hstatus with ⟨v, entries, hloads, hentries, hnone⟩
        refine bind_eq_ok.mpr ⟨v, json_eq_ok.mpr hloads, ?_⟩
        refine bind_eq_ok.mpr ⟨entries, hentries, ?_⟩
        exact bind_eq_ok.mpr ⟨none, firstWhere_eq_none.mpr hnone, rfl⟩
  · rw [if_neg hstatus]
    constructor
    · exact fun h => .inr ⟨fun hs => absurd hs hstatus, (Except.ok.inj h).symm⟩
    · rintro (⟨hs, -⟩ | ⟨-, rfl⟩)
      · exact absurd hs hstatus
      · rfl

theorem fallbackEmail_raises :
    RaisesOnly Translated (fallbackEmail lib user r) ↔
      (r.statusCode = 200 → ∃ v entries, lib.loads r.content = some v ∧
        iterate v = .ok entries ∧ ReadableUpTo (isPrimaryVerified lib) entries) := by
  unfold fallbackEmail
  by_cases hstatus : r.statusCode = 200
  · rw [if_pos hstatus, raisesOnly_bind, json_raises]
    constructor
    · rintro ⟨⟨v, hv⟩, h⟩ -
      have hbody := h v (json_eq_ok.mpr hv)
      rw [raisesOnly_bind, iterate_raises narrow_translated] at hbody
      rcases hbody with ⟨⟨entries, hentries⟩, h⟩
      refine ⟨v, entries, hv, hentries, ?_⟩
      have hfirst := (raisesOnly_bind.mp (h entries hentries)).1
      exact (firstWhere_raises narrow_translated _ _).mp hfirst
    · intro h
      rcases h hstatus with ⟨v, entries, hv, hentries, hreadable⟩
      refine ⟨⟨v, hv⟩, ?_⟩
      intro v' hv'
      have heq : v' = v := Option.some.inj ((json_eq_ok.mp hv').symm.trans hv)
      rw [heq, raisesOnly_bind, iterate_raises narrow_translated]
      refine ⟨⟨entries, hentries⟩, ?_⟩
      intro entries' hentries'
      rw [hentries] at hentries'
      rw [← Except.ok.inj hentries', raisesOnly_bind, firstWhere_raises narrow_translated]
      refine ⟨hreadable, ?_⟩
      intro found _
      cases found with
      | none => exact raisesOnly_ok _ _
      | some entry => exact raisesOnly_ok _ _
  · rw [if_neg hstatus]
    exact iff_of_true (raisesOnly_ok _ _) (fun hs => absurd hs hstatus)

theorem accountOf_eq_ok :
    accountOf lib world accessToken user = .ok identity ↔
      isNone (get user "id") = false ∧
        (truthy lib (get user "email") = true ∧
            identity = githubIdentity lib user (get user "email") true ∨
          truthy lib (get user "email") = false ∧
            ((∃ entry, GithubEntry lib world accessToken entry ∧
                identity = githubIdentity lib user (get entry "email") true) ∨
              GithubNoEntry lib world accessToken ∧
                identity = githubIdentity lib user (get user "email") false)) := by
  unfold accountOf
  by_cases hid : isNone (get user "id") = true
  · rw [if_pos hid]
    refine iff_of_false (fun h => by cases h) ?_
    rintro ⟨h, -⟩
    rw [hid] at h
    cases h
  · rw [if_neg hid, and_iff_right (Bool.eq_false_iff.mpr hid)]
    by_cases hemail : truthy lib (get user "email") = true
    · rw [if_pos hemail, and_iff_right hemail, hemail]
      constructor
      · exact fun h => .inl (Except.ok.inj h).symm
      · rintro (rfl | ⟨h, -⟩)
        · rfl
        · cases h
    · rw [if_neg hemail, Bool.eq_false_iff.mpr hemail, bind_eq_ok]
      simp only [Bool.false_eq_true, false_and, false_or, true_and]
      constructor
      · rintro ⟨r, hr, h⟩
        rcases send_eq_ok.mp hr with ⟨hsend, hworld⟩
        rcases fallbackEmail_eq_ok.mp h with ⟨hstatus, v, entries, entry, hv, hentries, hfirst,
          rfl⟩ | ⟨hnone, rfl⟩
        · exact .inl ⟨entry, ⟨v, entries, ⟨r, ⟨hsend, hworld, hstatus⟩, hv⟩, hentries, hfirst⟩,
            rfl⟩
        · exact .inr ⟨⟨r, hsend, hworld, hnone⟩, rfl⟩
      · rintro (⟨entry, ⟨v, entries, ⟨r, ⟨hsend, hworld, hstatus⟩, hv⟩, hentries, hfirst⟩, rfl⟩ |
          ⟨⟨r, hsend, hworld, hnone⟩, rfl⟩)
        · exact ⟨r, send_eq_ok.mpr ⟨hsend, hworld⟩,
            fallbackEmail_eq_ok.mpr
              (.inl ⟨hstatus, v, entries, entry, hv, hentries, hfirst, rfl⟩)⟩
        · exact ⟨r, send_eq_ok.mpr ⟨hsend, hworld⟩, fallbackEmail_eq_ok.mpr (.inr ⟨hnone, rfl⟩)⟩

theorem accountOf_raises (hheader : isHeader (bearer lib accessToken) = true) :
    RaisesOnly Translated (accountOf lib world accessToken user) ↔
      (isNone (get user "id") = false → truthy lib (get user "email") = false →
        EntriesReadable lib world (githubEmailsRequest lib accessToken)) := by
  unfold accountOf
  by_cases hid : isNone (get user "id") = true
  · rw [if_pos hid, hid]
    refine iff_of_true (raisesOnly_error.mpr (.inr ⟨_, rfl⟩)) ?_
    intro h
    cases h
  · rw [if_neg hid, forall_prop_of_true (Bool.eq_false_iff.mpr hid)]
    by_cases hemail : truthy lib (get user "email") = true
    · rw [if_pos hemail, hemail]
      refine iff_of_true (raisesOnly_ok _ _) ?_
      intro h
      cases h
    · rw [if_neg hemail, forall_prop_of_true (Bool.eq_false_iff.mpr hemail), raisesOnly_bind,
        send_raises,
        and_iff_right (show Sendable (githubEmailsRequest lib accessToken) from hheader)]
      simp only [fallbackEmail_raises, send_eq_ok]
      constructor
      · exact fun h r hr => h r ⟨hr.1, hr.2.1⟩ hr.2.2
      · exact fun h r hr hstatus => h r ⟨hr.1, hr.2, hstatus⟩

/-- GitHub's client returns what GitHub reports. -/
theorem resolveGithub_eq_ok :
    resolveGithub lib world c a = .ok identity ↔ GithubReports lib world c a identity := by
  unfold resolveGithub
  rw [translate_eq_ok, objectAnswer_eq_ok]
  constructor
  · rintro ⟨fields, hfields, h⟩
    by_cases hgranted : granted lib fields = true
    · rw [if_pos hgranted] at h
      rcases objectAnswer_eq_ok.mp h with ⟨user, huser, h⟩
      rcases accountOf_eq_ok.mp h with ⟨hid, h⟩
      exact ⟨get fields "access_token", user, ⟨fields, hfields, rfl, hgranted⟩, ⟨huser, hid⟩, h⟩
    · rw [if_neg hgranted] at h
      cases h
  · rintro ⟨accessToken, user, ⟨fields, hfields, rfl, hgranted⟩, ⟨huser, hid⟩, h⟩
    refine ⟨fields, hfields, ?_⟩
    rw [if_pos hgranted]
    exact objectAnswer_eq_ok.mpr ⟨user, huser, accountOf_eq_ok.mpr ⟨hid, h⟩⟩

/-- GitHub's client fails only with its own error iff the answers can be walked. -/
theorem resolveGithub_raises :
    RaisesOnly IsProviderError (resolveGithub lib world c a) ↔ GithubReadable lib world c a := by
  unfold resolveGithub
  rw [raisesOnly_translate ⟨_, rfl⟩]
  change RaisesOnly Translated _ ↔ _
  rw [objectAnswer_raises, and_iff_right (show Sendable (githubTokenRequest c a) from trivial)]
  constructor
  · rintro ⟨htoken, h⟩
    have haccount : ∀ accessToken, GithubToken lib world c a accessToken →
        RaisesOnly Translated (githubAccount lib world accessToken) := by
      rintro accessToken ⟨fields, hfields, rfl, hgranted⟩
      have hf := h fields hfields
      rw [if_pos hgranted] at hf
      exact hf
    refine ⟨htoken, fun t ht => (objectAnswer_raises.mp (haccount t ht)).1,
      fun t ht => (objectAnswer_raises.mp (haccount t ht)).2.1, ?_⟩
    rintro accessToken user ht ⟨huser, hid⟩ hemail
    rcases objectAnswer_raises.mp (haccount accessToken ht) with ⟨hheader, -, hrest⟩
    exact (accountOf_raises hheader).mp (hrest user huser) hid hemail
  · intro h
    refine ⟨h.token, ?_⟩
    intro fields hfields
    by_cases hgranted : granted lib fields = true
    · rw [if_pos hgranted]
      have ht : GithubToken lib world c a (get fields "access_token") :=
        ⟨fields, hfields, rfl, hgranted⟩
      refine objectAnswer_raises.mpr ⟨h.header _ ht, h.user _ ht, ?_⟩
      intro user huser
      refine (accountOf_raises (h.header _ ht)).mpr ?_
      exact fun hid hemail => h.emails _ user ht ⟨huser, hid⟩ hemail
    · rw [if_neg hgranted]
      exact raisesOnly_error.mpr (.inr ⟨_, rfl⟩)

end Github

end Providers

end Partha
