import QuantumSentinel.Integration.SignedRequests
import QuantumSentinel.Lib.Digests
import QuantumSentinel.Lib.PrefixCode

/-!
# API keys: one request for a signature

The signed text joins its parts with two bars.  A timestamp that `int` takes has no bar and
the digest of the body has a fixed length, so the text can be taken apart again when the method
has no bar and the path no two bars in a row.

Main results:

- Theorem `message_inj`: what a signed text says about the request.
- Theorem `Sound.step`: what every action keeps of the accepted signatures.
- Theorem `signature_authorises_one_request`: equal texts, equal requests, and no signature
  accepted twice.
-/

namespace QuantumSentinel.Integration

open Lib

/-! ## Timestamps have no bars -/

/-- The characters of digits with underscores. -/
theorem digitsValue?_chars {chars : List Char} {n m : ℕ} (h : digitsValue? n chars = some m) :
    ∀ c ∈ chars, c.isDigit = true ∨ c = '_' := by
  induction n, chars using digitsValue?.induct with
  | case1 n => simp
  | case2 n c rest hdigit ih =>
    rw [digitsValue?, if_pos hdigit] at h
    simp only [List.mem_cons]
    rintro d (rfl | rfl | hd)
    · exact .inr rfl
    · exact .inl hdigit
    · exact ih h d hd
  | case3 n c rest hdigit =>
    rw [digitsValue?, if_neg hdigit] at h
    cases h
  | case4 n c rest hother hdigit ih =>
    rw [digitsValue?, if_pos hdigit] at h
    · simp only [List.mem_cons]
      rintro d (rfl | hd)
      · exact .inl hdigit
      · exact ih h d hd
    · exact hother
  | case5 n c rest hother hdigit =>
    rw [digitsValue?, if_neg hdigit] at h
    · cases h
    · exact hother

/-- The characters of a number. -/
theorem natValue?_chars {chars : List Char} {n : ℕ} (h : natValue? chars = some n) :
    chars ≠ [] ∧ ∀ c ∈ chars, c.isDigit = true ∨ c = '_' := by
  cases chars with
  | nil => cases h
  | cons c rest =>
    simp only [natValue?] at h
    split at h
    · rename_i hdigit
      refine ⟨List.cons_ne_nil _ _, ?_⟩
      simp only [List.mem_cons]
      rintro d (rfl | hd)
      · exact .inl hdigit.1
      · exact digitsValue?_chars h d hd
    · cases h

/-- What stands between the blanks of an integer text: a sign and digits. -/
theorem strip_of_parseInt? {text : String} {n : ℤ} (h : parseInt? text = some n) :
    strip text.toList ≠ [] ∧
      ∀ c ∈ strip text.toList, c.isDigit = true ∨ c = '_' ∨ c = '-' ∨ c = '+' := by
  rw [parseInt?] at h
  split at h
  · rename_i rest hstrip
    rcases Option.map_eq_some_iff.mp h with ⟨m, hm, _⟩
    rw [hstrip]
    refine ⟨List.cons_ne_nil _ _, ?_⟩
    simp only [List.mem_cons]
    rintro c (rfl | hc)
    · simp
    · rcases (natValue?_chars hm).2 c hc with hd | hd <;> simp [hd]
  · rename_i rest hstrip
    rcases Option.map_eq_some_iff.mp h with ⟨m, hm, _⟩
    rw [hstrip]
    refine ⟨List.cons_ne_nil _ _, ?_⟩
    simp only [List.mem_cons]
    rintro c (rfl | hc)
    · simp
    · rcases (natValue?_chars hm).2 c hc with hd | hd <;> simp [hd]
  · rcases Option.map_eq_some_iff.mp h with ⟨m, hm, _⟩
    refine ⟨(natValue?_chars hm).1, fun c hc => ?_⟩
    rcases (natValue?_chars hm).2 c hc with hd | hd <;> simp [hd]

/-- A character of a text is a blank at one of its ends or stands between them. -/
theorem mem_strip {chars : List Char} {c : Char} (hc : c ∈ chars) :
    isBlank c = true ∨ c ∈ strip chars := by
  have hfront : ∀ {l : List Char}, c ∈ l → isBlank c = true ∨ c ∈ l.dropWhile isBlank := by
    intro l hl
    rw [← List.takeWhile_append_dropWhile (p := isBlank) (l := l), List.mem_append] at hl
    rcases hl with htake | hdrop
    · exact .inl (List.mem_takeWhile_imp htake)
    · exact .inr hdrop
  rcases hfront hc with hblank | hdrop
  · exact .inl hblank
  · rw [strip, List.rdropWhile, List.mem_reverse]
    exact hfront (List.mem_reverse.mpr hdrop)

/-- A timestamp that `int` takes is not empty and has no bar. -/
theorem bar_notMem_of_parseInt? {text : String} {n : ℤ} (h : parseInt? text = some n) :
    text.toList ≠ [] ∧ '|' ∉ text.toList := by
  rcases strip_of_parseInt? h with ⟨hne, hchars⟩
  constructor
  · intro hnil
    rw [hnil] at hne
    exact hne rfl
  · intro hbar
    rcases mem_strip hbar with hblank | hmem
    · cases hblank
    · rcases hchars _ hmem with hd | hd | hd | hd <;> cases hd

/-! ## The signed text -/

/-- A method without a bar and a path without two bars in a row. -/
structure SignedRequest.Plain (cfg : ApiConfig) (r : SignedRequest) : Prop where
  method : '|' ∉ (cfg.upper r.method).toList
  path : ¬ ['|', '|'] <:+: r.path.toList

/-- The characters of a signed text. -/
theorem message_toList (cfg : ApiConfig) (r : SignedRequest) :
    (cfg.message r).toList = (cfg.upper r.method).toList ++ '|' :: '|' :: (r.path.toList ++
      '|' :: '|' :: (r.timestamp.toList ++ '|' :: '|' :: (r.nonce.toList ++
        '|' :: '|' :: (cfg.sha256 r.body).toList))) := by
  simp [ApiConfig.message]

/-- Words without a bar, each followed by one. -/
theorem bar_cancel {as bs x y : List Char} (has : '|' ∉ as) (hbs : '|' ∉ bs)
    (h : as ++ '|' :: x = bs ++ '|' :: y) : as = bs ∧ x = y := by
  have hword : ∀ {l : List Char}, '|' ∉ l → ∀ c ∈ l, (c != '|') = true := by
    intro l hl c hc
    rw [bne_iff_ne]
    rintro rfl
    exact hl hc
  rcases word_inj (p := (· != '|')) (hword has) (hword hbs) (by simp) (by simp) h with
    ⟨hsame, hrest⟩
  exact ⟨hsame, (List.cons.inj hrest).2⟩

/-- Equal signed texts come from requests that differ in the case of the method at most. -/
theorem message_inj {cfg : ApiConfig} (hsha : ∀ data, (cfg.sha256 data).toList.length = 64)
    {r r' : SignedRequest} {ts ts' : ℤ} (hr : r.Plain cfg) (hr' : r'.Plain cfg)
    (hts : parseInt? r.timestamp = some ts) (hts' : parseInt? r'.timestamp = some ts')
    (h : cfg.message r = cfg.message r') :
    cfg.upper r.method = cfg.upper r'.method ∧ r.path = r'.path ∧ r.timestamp = r'.timestamp ∧
      r.nonce = r'.nonce ∧ cfg.sha256 r.body = cfg.sha256 r'.body := by
  have htext := congrArg String.toList h
  rw [message_toList, message_toList] at htext
  rcases bar_notMem_of_parseInt? hts with ⟨hne, hbar⟩
  rcases bar_notMem_of_parseInt? hts' with ⟨hne', hbar'⟩
  have hhead : ∀ {l x : List Char}, l ≠ [] → '|' ∉ l → (l ++ x).head? ≠ some '|' := by
    intro l x hl hlbar
    cases l with
    | nil => exact absurd rfl hl
    | cons c l =>
      rintro hc
      cases hc
      exact hlbar (List.mem_cons_self ..)
  rcases bar_cancel hr.method hr'.method htext with ⟨hmethod, hafter⟩
  rcases cut_at_pair hr.path hr'.path (hhead hne hbar) (hhead hne' hbar')
    (List.cons.inj hafter).2 with ⟨hpath, hafter⟩
  rcases bar_cancel hbar hbar' hafter with ⟨htimestamp, hafter⟩
  -- the digest has a fixed length, so the nonce may have any characters
  have hlength : r.nonce.toList.length = r'.nonce.toList.length := by
    have htotal := congrArg List.length (List.cons.inj hafter).2
    simp only [List.length_append, List.length_cons, hsha] at htotal
    omega
  rcases List.append_inj (List.cons.inj hafter).2 hlength with ⟨hnonce, hbody⟩
  exact ⟨String.toList_inj.mp hmethod, String.toList_inj.mp hpath,
    String.toList_inj.mp htimestamp, String.toList_inj.mp hnonce,
    String.toList_inj.mp (List.cons.inj (List.cons.inj hbody).2).2⟩


/-! ## Signatures and keys -/

/-- A signature that a key of the table made, over a timestamp close to the time. -/
def Genuine (cfg : ApiConfig) (keys : Dict String ApiKey) (a : Accepted) : Prop :=
  ∃ key secret ts, keys.get? a.signed.keyId = some key ∧ cfg.secret? key = some secret ∧
    a.signed.signature = cfg.expectedSig secret a.signed.request ∧
    parseInt? a.signed.request.timestamp = some ts ∧ |seconds a.time - ts| ≤ 30

/-- No key is lost, and none gets another secret. -/
def KeepsSecrets (keys keys' : Dict String ApiKey) : Prop :=
  ∀ id key, keys.get? id = some key → ∃ key', keys'.get? id = some key' ∧
    key'.hmacSecretEncrypted = key.hmacSecretEncrypted

theorem KeepsSecrets.refl (keys : Dict String ApiKey) : KeepsSecrets keys keys :=
  fun _ key hkey => ⟨key, hkey, rfl⟩

/-- A new key, or one with its old secret. -/
theorem KeepsSecrets.set {keys : Dict String ApiKey} {id : String} {key : ApiKey}
    (hold : ∀ old, keys.get? id = some old → key.hmacSecretEncrypted = old.hmacSecretEncrypted) :
    KeepsSecrets keys (keys.set id key) := by
  intro id' old hget
  by_cases hid : id' = id
  · subst hid
    exact ⟨key, Dict.get?_set_self .., hold old hget⟩
  · exact ⟨old, by rw [Dict.get?_set_ne keys key hid, hget], rfl⟩

/-- A genuine signature stays one. -/
theorem Genuine.mono {cfg : ApiConfig} {keys keys' : Dict String ApiKey} {a : Accepted}
    (h : Genuine cfg keys a) (hkeys : KeepsSecrets keys keys') : Genuine cfg keys' a := by
  rcases h with ⟨key, secret, ts, hkey, hsecret, hsignature, hts, hwindow⟩
  rcases hkeys _ _ hkey with ⟨key', hkey', hsame⟩
  refine ⟨key', secret, ts, hkey', ?_, hsignature, hts, hwindow⟩
  rw [ApiConfig.secret?, hsame]
  exact hsecret

/-- A verified request: its signature is genuine and its key is marked as used. -/
theorem verifyHmacRequest_eq_some {cfg : ApiConfig} {keys : Dict String ApiKey} {now : Time}
    {signed : Signed} {scope : String} {key : ApiKey}
    (h : cfg.verifyHmacRequest keys now signed scope = .ok (some key)) :
    Genuine cfg keys ⟨signed, now⟩ ∧
      ∃ old, keys.get? signed.keyId = some old ∧ key = old.used now := by
  simp only [ApiConfig.verifyHmacRequest] at h
  split at h
  · cases h
  · rename_i old hold
    have hget := (Option.filter_eq_some_iff.mp hold).1
    split at h
    · cases h
    · split at h
      · cases h
      · rename_i ts hts
        split at h
        · cases h
        · rename_i hwindow
          split at h
          · cases h
          · rename_i secret hsecret
            split at h
            · cases h
            · cases h
            · rename_i hcompare
              cases h
              refine ⟨⟨old, secret, ts, hget, hsecret, ?_, hts, not_lt.mp hwindow⟩, old, hget, rfl⟩
              simp only [ApiConfig.compareDigest] at hcompare
              split at hcompare
              · exact of_decide_eq_true (Except.ok.inj hcompare)
              · cases hcompare

/-- One signature of one key is over one text. -/
theorem Genuine.message_eq {cfg : ApiConfig} {keys : Dict String ApiKey} {a b : Accepted}
    (hhmac : ∀ secret x y, cfg.hmac secret x = cfg.hmac secret y → x = y)
    (ha : Genuine cfg keys a) (hb : Genuine cfg keys b) (hid : a.signed.keyId = b.signed.keyId)
    (hsignature : a.signed.signature = b.signed.signature) :
    cfg.message a.signed.request = cfg.message b.signed.request := by
  rcases ha with ⟨key, secret, _, hkey, hsecret, hsig, -⟩
  rcases hb with ⟨key', secret', _, hkey', hsecret', hsig', -⟩
  rw [hid, hkey'] at hkey
  cases hkey
  rw [hsecret'] at hsecret
  cases hsecret
  rw [hsig, hsig'] at hsignature
  exact utf8_injective (hhmac _ _ _ hsignature)

/-- Two times in the window of one timestamp are not far apart. -/
theorem near_of_window {now time : ℕ} {ts : ℤ} (hnow : |seconds now - ts| ≤ 30)
    (htime : |seconds time - ts| ≤ 30) : now < time + 300 * 1000000 := by
  rw [abs_le] at hnow htime
  have hclose : seconds now ≤ seconds time + 60 := by omega
  simp only [seconds] at hclose
  omega

/-! ## Nonces -/

/-- The store that holds the nonces. -/
def ApiConfig.store (cfg : ApiConfig) (stores : ApiConfig.NonceStores) : Dict String Time :=
  if cfg.redisClient then stores.redis else stores.memKv

/-- Where Redis fails, production refuses the request. -/
def ApiConfig.Refuses (cfg : ApiConfig) (redisFails : Bool) : Prop :=
  redisFails = true → cfg.redisClient = true → cfg.production = true

/-- An entry that is still kept survives the removal of the others. -/
theorem get?_cleanupMem {now kept : Time} {memKv : Dict String Time} {key : String}
    (hkept : memKv.get? key = some kept) (hlive : now < kept) :
    (ApiConfig.cleanupMem now memKv).get? key = some kept := by
  rw [Dict.get?_eq_some_iff] at hkept ⊢
  exact List.mem_filter.mpr ⟨hkept, by simp [hlive.le]⟩

section Consume

variable {cfg : ApiConfig} {stores : ApiConfig.NonceStores} {now ttl : Time} {redisFails : Bool}
  {key : String}

/-- An entry that Redis keeps is not set again. -/
theorem redisSetNx_eq_some {redis redis' : Dict String Time}
    (h : ApiConfig.redisSetNx now ttl key redis = some redis') :
    (∀ kept, redis.get? key = some kept → kept < now) ∧ redis' = redis.set key (now + ttl) := by
  simp only [ApiConfig.redisSetNx] at h
  split at h
  · cases h
  · rename_i hexpired
    cases h
    refine ⟨fun kept hkept => ?_, rfl⟩
    rw [hkept] at hexpired
    simpa using hexpired

/-- An entry that is still kept stays, whatever is set. -/
theorem live_of_setNxEx {k : String} {kept : Time}
    (hkept : (cfg.store stores).get? k = some kept) (hlive : now < kept) :
    (cfg.store (cfg.setNxEx stores now redisFails key ttl).2).get? k = some kept := by
  simp only [ApiConfig.setNxEx]
  split
  · rename_i hclient
    have hredis : cfg.redisClient = true := (Bool.and_eq_true_iff.mp hclient).1
    simp only [ApiConfig.store, hredis, if_true] at hkept ⊢
    split
    · rename_i redis' hset
      rcases redisSetNx_eq_some hset with ⟨hexpired, rfl⟩
      have hne : k ≠ key := by
        rintro rfl
        exact absurd (hexpired kept hkept) (not_lt.mpr hlive.le)
      rw [Dict.get?_set_ne _ _ hne]
      exact hkept
    · exact hkept
  · split
    · exact hkept
    · by_cases hredis : cfg.redisClient = true
      · simp only [ApiConfig.store, hredis, if_true] at hkept ⊢
        split <;> exact hkept
      · simp only [ApiConfig.store, hredis, if_false, Bool.false_eq_true] at hkept ⊢
        have hclean := get?_cleanupMem hkept hlive
        split
        · exact hclean
        · rename_i hexpired
          have hne : k ≠ key := by
            rintro rfl
            rw [hclean] at hexpired
            exact hexpired (by simpa using hlive)
          rw [Dict.get?_set_ne _ _ hne]
          exact hclean

/-- A key that was set had no entry, and has one now. -/
theorem setNxEx_true (hrefuses : cfg.Refuses redisFails)
    (h : (cfg.setNxEx stores now redisFails key ttl).1 = .ok true) :
    (∀ kept, (cfg.store stores).get? key = some kept → kept ≤ now) ∧
      (cfg.store (cfg.setNxEx stores now redisFails key ttl).2).get? key = some (now + ttl) := by
  simp only [ApiConfig.setNxEx] at h ⊢
  split at h
  · rename_i hclient
    have hredis : cfg.redisClient = true := (Bool.and_eq_true_iff.mp hclient).1
    rw [if_pos hclient]
    split at h
    · rename_i redis' hset
      rcases redisSetNx_eq_some hset with ⟨hexpired, rfl⟩
      simp only [ApiConfig.store, hredis, if_true]
      exact ⟨fun kept hkept => (hexpired kept hkept).le, Dict.get?_set_self ..⟩
    · cases h
  · rename_i hclient
    rw [if_neg hclient]
    split at h
    · cases h
    · rename_i hproduction
      have hredis : cfg.redisClient = false := by
        by_contra hredis
        rw [Bool.not_eq_false] at hredis
        have hfails : redisFails = true := by simpa [hredis] using hclient
        exact hproduction (by simp [hredis, hrefuses hfails hredis])
      rw [if_neg hproduction]
      split at h
      · cases h
      · rename_i hexpired
        rw [if_neg hexpired]
        simp only [ApiConfig.store, hredis, if_false, Bool.false_eq_true]
        refine ⟨fun kept hkept => ?_, Dict.get?_set_self ..⟩
        by_contra hlive
        rw [get?_cleanupMem hkept (not_le.mp hlive)] at hexpired
        exact hexpired (by simpa using hlive)

end Consume

/-! ## Every run -/

/-- The nonce of an accepted signature is kept, or its time is over. -/
def Remembers (cfg : ApiConfig) (s : ApiState) (a : Accepted) : Prop :=
  a.time + 300 * 1000000 ≤ s.clock ∨
    ∃ kept, (cfg.store s.stores).get? (cfg.nonceKey a.signed.keyId a.signed.request.nonce) =
      some kept ∧ a.time + 300 * 1000000 ≤ kept

/-- What the service knows of the signatures it accepted. -/
structure Sound (cfg : ApiConfig) (s : ApiState) : Prop where
  genuine : ∀ a ∈ s.accepted, Genuine cfg s.keys a
  plain : ∀ a ∈ s.accepted, a.signed.request.Plain cfg
  remembered : ∀ a ∈ s.accepted, Remembers cfg s a
  /-- no key has one signature accepted twice -/
  once : (s.accepted.map fun a => (a.signed.keyId, a.signed.signature)).Nodup

/-- The condition on a run: signed requests are plain, and where Redis fails they are refused. -/
def ApiAction.Plain (cfg : ApiConfig) (_ : ApiState) : ApiAction → Prop
  | .request _ redisFails _ received =>
    (∀ signed, received.signed? = some signed → signed.request.Plain cfg) ∧
      cfg.Refuses redisFails
  | _ => True

theorem Sound.init (cfg : ApiConfig) : Sound cfg (apiService cfg).init where
  genuine _ ha := by cases ha
  plain _ ha := by cases ha
  remembered _ ha := by cases ha
  once := List.nodup_nil

variable {cfg : ApiConfig} {s : ApiState}

/-- What is known stays known when time goes on, no secret changes and no kept nonce is lost. -/
theorem Sound.later (h : Sound cfg s) {keys : Dict String ApiKey} {stores : ApiConfig.NonceStores}
    {now : Time} (hnow : s.clock ≤ now) (hkeys : KeepsSecrets s.keys keys)
    (hstores : ∀ k kept, (cfg.store s.stores).get? k = some kept → now < kept →
      (cfg.store stores).get? k = some kept) :
    Sound cfg ⟨keys, stores, now, s.accepted⟩ where
  genuine a ha := (h.genuine a ha).mono hkeys
  plain := h.plain
  remembered a ha := by
    rcases h.remembered a ha with hover | ⟨kept, hkept, hlong⟩
    · exact .inl (hover.trans hnow)
    · rcases le_or_gt kept now with hpast | hlive
      · exact .inl (hlong.trans hpast)
      · exact .inr ⟨kept, hstores _ kept hkept hlive, hlong⟩
  once := h.once

/-- A signature that passes again finds its nonce used. -/
theorem Sound.fresh (h : Sound cfg s) (hsha : ∀ data, (cfg.sha256 data).toList.length = 64)
    (hhmac : ∀ secret x y, cfg.hmac secret x = cfg.hmac secret y → x = y) {now : Time}
    {signed : Signed} (hnow : s.clock ≤ now) (hplain : signed.request.Plain cfg)
    (hgenuine : Genuine cfg s.keys ⟨signed, now⟩)
    (hunused : ∀ kept, (cfg.store s.stores).get?
      (cfg.nonceKey signed.keyId signed.request.nonce) = some kept → kept ≤ now) :
    (signed.keyId, signed.signature) ∉
      s.accepted.map fun a => (a.signed.keyId, a.signed.signature) := by
  intro hmem
  rcases List.mem_map.mp hmem with ⟨a, ha, heq⟩
  rw [Prod.mk.injEq] at heq
  have hmessage := (h.genuine a ha).message_eq hhmac hgenuine heq.1 heq.2
  rcases h.genuine a ha with ⟨_, _, ts, _, _, _, hts, hwindow⟩
  rcases hgenuine with ⟨_, _, ts', _, _, _, hts', hwindow'⟩
  rcases message_inj hsha (h.plain a ha) hplain hts hts' hmessage with
    ⟨_, _, htimestamp, hnonce, _⟩
  rw [htimestamp, hts'] at hts
  cases hts
  have hnear := near_of_window hwindow' hwindow
  rcases h.remembered a ha with hover | ⟨kept, hkept, hlong⟩
  · exact absurd (hover.trans hnow) (not_le.mpr hnear)
  · rw [heq.1, hnonce] at hkept
    exact absurd (hlong.trans (hunused kept hkept)) (not_le.mpr hnear)

/-- One more accepted signature, whose nonce is now kept. -/
theorem Sound.accept (h : Sound cfg s) {signed : Signed} (hplain : signed.request.Plain cfg)
    (hgenuine : Genuine cfg s.keys ⟨signed, s.clock⟩)
    (hset : (cfg.store s.stores).get? (cfg.nonceKey signed.keyId signed.request.nonce) =
      some (s.clock + 300 * 1000000))
    (hfresh : (signed.keyId, signed.signature) ∉
      s.accepted.map fun a => (a.signed.keyId, a.signed.signature)) :
    Sound cfg { s with accepted := ⟨signed, s.clock⟩ :: s.accepted } where
  genuine a ha := by
    rcases List.mem_cons.mp ha with rfl | hold
    · exact hgenuine
    · exact h.genuine a hold
  plain a ha := by
    rcases List.mem_cons.mp ha with rfl | hold
    · exact hplain
    · exact h.plain a hold
  remembered a ha := by
    rcases List.mem_cons.mp ha with rfl | hold
    · exact .inr ⟨_, hset, le_rfl⟩
    · exact h.remembered a hold
  once := List.nodup_cons.mpr ⟨hfresh, h.once⟩

/-- A bearer key is marked as used and keeps its secret. -/
theorem keepsSecrets_verifyApiKey {keys : Dict String ApiKey} {now : Time}
    {rawKey scope id : String} {key : ApiKey}
    (h : cfg.verifyApiKey keys now rawKey scope = some (id, key)) :
    KeepsSecrets keys (keys.set id key) := by
  simp only [ApiConfig.verifyApiKey] at h
  split at h
  · cases h
  · rename_i item hitem
    split at h
    · cases h
    · cases h
      have hget := Dict.get?_eq_some_iff.mpr (List.mem_of_find?_eq_some hitem)
      refine KeepsSecrets.set fun old hold => ?_
      rw [hget, Option.some.injEq] at hold
      rw [← hold]
      rfl

/-- A request keeps what is known. -/
theorem Sound.request (h : Sound cfg s) (hsha : ∀ data, (cfg.sha256 data).toList.length = 64)
    (hhmac : ∀ secret x y, cfg.hmac secret x = cfg.hmac secret y → x = y) {now : Time}
    {redisFails : Bool} {scope : String} {received : HttpRequest} (hnow : s.clock ≤ now)
    (hplain : ∀ signed, received.signed? = some signed → signed.request.Plain cfg)
    (hrefuses : cfg.Refuses redisFails) :
    Sound cfg { (cfg.requireApiScope scope s now redisFails received).2 with clock := now } := by
  have hidle : Sound cfg { s with clock := now } :=
    h.later hnow (KeepsSecrets.refl _) fun _ _ hkept _ => hkept
  simp only [ApiConfig.requireApiScope]
  split
  · rename_i signed hsigned
    split
    · exact hidle
    · exact hidle
    · rename_i key hverify
      rcases verifyHmacRequest_eq_some hverify with ⟨hgenuine, old, hold, hused⟩
      have hkeys : KeepsSecrets s.keys (s.keys.set signed.keyId key) := by
        refine KeepsSecrets.set fun old' hold' => ?_
        rw [hold', Option.some.injEq] at hold
        rw [hused, ← hold]
        rfl
      have hlater : Sound cfg ⟨s.keys.set signed.keyId key, (cfg.consumeApiNonce s.stores now
          redisFails signed.keyId signed.request.nonce).2, now, s.accepted⟩ :=
        h.later hnow hkeys fun _ _ => live_of_setNxEx
      split
      · exact hlater
      · exact hlater
      · rename_i hanswer
        rcases setNxEx_true hrefuses hanswer with ⟨hunused, hset⟩
        have hfresh := h.fresh hsha hhmac hnow (hplain signed hsigned) hgenuine hunused
        exact hlater.accept (hplain signed hsigned) (hgenuine.mono hkeys) hset hfresh
  · split
    · exact hidle
    · split
      · exact hidle
      · rename_i hverify
        exact h.later hnow (keepsSecrets_verifyApiKey hverify) fun _ _ hkept _ => hkept

/-- Every action keeps what is known. -/
theorem Sound.step (h : Sound cfg s) (hsha : ∀ data, (cfg.sha256 data).toList.length = 64)
    (hhmac : ∀ secret x y, cfg.hmac secret x = cfg.hmac secret y → x = y) {a : ApiAction}
    {s' : ApiState} (ha : a.Plain cfg s) (hstep : (apiService cfg).step s a = some s') :
    Sound cfg s' := by
  simp only [apiService] at hstep
  cases a with
  | request now redisFails scope received =>
    simp only [ApiState.step] at hstep
    split at hstep
    · rename_i hnow
      cases hstep
      exact h.request hsha hhmac hnow ha.1 ha.2
    · cases hstep
  | create id key =>
    simp only [ApiState.step] at hstep
    split at hstep
    · rename_i hnew
      cases hstep
      refine h.later le_rfl (KeepsSecrets.set fun old hold => ?_) fun _ _ hkept _ => hkept
      rw [hnew] at hold
      cases hold
    · cases hstep
  | revoke user id =>
    simp only [ApiState.step] at hstep
    split at hstep
    · rename_i key hkey
      split at hstep
      · cases hstep
        refine h.later le_rfl (KeepsSecrets.set fun old hold => ?_) fun _ _ hkept _ => hkept
        rw [hkey, Option.some.injEq] at hold
        rw [← hold]
      · cases hstep
        exact h
    · cases hstep
      exact h

/-- No key has one signature accepted twice, in any run of plain requests. -/
theorem sound_of_reachable (hsha : ∀ data, (cfg.sha256 data).toList.length = 64)
    (hhmac : ∀ secret x y, cfg.hmac secret x = cfg.hmac secret y → x = y)
    (hs : (apiService cfg).ReachableUnder (fun t a => a.Plain cfg t) s) : Sound cfg s :=
  Machine.ReachableUnder.invariant (I := Sound cfg) (Sound.init cfg)
    (fun _ _ _ ha hstep h => h.step hsha hhmac ha hstep) hs

/-- Where SHA-256 and HMAC have no collisions: two plain requests that pass and are signed over
one text differ in the case of the method at most; and in no run of plain requests is a signature
of a key accepted twice. -/
theorem signature_authorises_one_request {cfg : ApiConfig}
    (hsha : ∀ data, (cfg.sha256 data).toList.length = 64)
    (hhmac : ∀ secret x y, cfg.hmac secret x = cfg.hmac secret y → x = y) :
    (∀ keys keys' now now' scope scope' key key', ∀ signed signed' : Signed,
      cfg.verifyHmacRequest keys now signed scope = .ok (some key) →
        cfg.verifyHmacRequest keys' now' signed' scope' = .ok (some key') →
          signed.request.Plain cfg → signed'.request.Plain cfg →
            utf8 (cfg.message signed.request) = utf8 (cfg.message signed'.request) →
              (cfg.sha256 signed.request.body = cfg.sha256 signed'.request.body →
                signed.request.body = signed'.request.body) →
                cfg.upper signed.request.method = cfg.upper signed'.request.method ∧
                  signed.request = { signed'.request with method := signed.request.method }) ∧
      ∀ s, (apiService cfg).ReachableUnder (fun t a => a.Plain cfg t) s →
        (s.accepted.map fun a => (a.signed.keyId, a.signed.signature)).Nodup := by
  refine ⟨?_, fun s hs => (sound_of_reachable hsha hhmac hs).once⟩
  rintro keys keys' now now' scope scope' key key' ⟨_, _, r⟩ ⟨_, _, r'⟩ hverify hverify' hr hr'
    htext hbody
  rcases (verifyHmacRequest_eq_some hverify).1 with ⟨_, _, ts, _, _, _, hts, _⟩
  rcases (verifyHmacRequest_eq_some hverify').1 with ⟨_, _, ts', _, _, _, hts', _⟩
  rcases message_inj hsha hr hr' hts hts' (utf8_injective htext) with
    ⟨hmethod, hpath, htimestamp, hnonce, hdigest⟩
  refine ⟨hmethod, ?_⟩
  simp only at hbody hpath htimestamp hnonce hdigest
  rw [SignedRequest.mk.injEq]
  exact ⟨rfl, hpath, htimestamp, hnonce, hbody hdigest⟩

/-! ## A service -/

/-- The text that a request for `/x` signs behind its method and path. -/
def sampleMessage (rest : String) : Bytes :=
  utf8 ("GET||/x||1700000000||" ++ rest ++
    "||e3b0c44298fc1c149afbf4c8996fb92427ae41e4649b934ca495991b7852b855")

/-- The digests of the texts that are hashed below; they are those of SHA-256. -/
def sampleDigest (data : Bytes) : ℕ :=
  if data = [] then
    0xe3b0c44298fc1c149afbf4c8996fb92427ae41e4649b934ca495991b7852b855
  else if data = utf8 "k:n" then
    0xa6643027690d1f7db431f6392681a8846da9d43503a2bdd93f74553a9b1a9bee
  else if data = utf8 "k:1700000001||n" then
    0x15b2951a3b3201ac0d29626321e7e7513e5b23571ac03fb21172e53b2e439e7e
  else 0

/-- A production service; its signatures are those of HMAC-SHA256 with the secret `s`. -/
def sampleConfig : ApiConfig where
  upper text := String.ofList (text.toList.map Char.toUpper)
  sha256 data := hexdigest (sampleDigest data)
  hmac _ := Digests.hash ⟨[
    (sampleMessage "n", 0x74ea4be204077c8c34a1a470a3ae1b826402de1e077c5e62ec1d17dfc254c8a1),
    (sampleMessage "1700000001||n",
      0x4632c0d70c9f74e1a0cd81355257bdb2b2f3d48996d8cc68c965b20fbcd237ed)], by decide, by decide⟩
  decryptHmacSecret := some
  redisClient := true
  production := true

/-- A key that may read. -/
def sampleKey : ApiKey where
  userId := "u"
  keyHash := ""
  hmacSecretEncrypted := some "s"
  scopes := ["read"]
  lastUsedAt := none
  expiresAt := none
  isRevoked := false

/-- A request with the key, signed by a digest. -/
def sampleSigned (digest : ℕ) (method path timestamp nonce : String) : Signed :=
  ⟨"k", hexdigest digest, ⟨method, path, timestamp, nonce, []⟩⟩

/-- The same request with its headers. -/
def Signed.received (signed : Signed) : HttpRequest where
  method := signed.request.method
  path := signed.request.path
  body := signed.request.body
  apiKey := none
  keyId := some signed.keyId
  timestamp := some signed.request.timestamp
  nonce := some signed.request.nonce
  signature := some signed.signature

/-- The actions of a client whose key is new: some requests, at one time. -/
def sampleActions (requests : List Signed) : List ApiAction :=
  .create "k" sampleKey ::
    requests.map fun signed => .request 1700000000000000 false "read" signed.received

/-- A request and its signature. -/
def sampleGet (method : String) : Signed :=
  sampleSigned 0x74ea4be204077c8c34a1a470a3ae1b826402de1e077c5e62ec1d17dfc254c8a1 method "/x"
    "1700000000" "n"

/-- Two requests that sign one text: the bars of the nonce, or those of the path. -/
def sampleSplit (inPath : Bool) : Signed :=
  let digest := 0x4632c0d70c9f74e1a0cd81355257bdb2b2f3d48996d8cc68c965b20fbcd237ed
  if inPath then sampleSigned digest "GET" "/x||1700000000" "1700000001" "n"
  else sampleSigned digest "GET" "/x" "1700000000" "1700000001||n"

/-- The keys of the client. -/
def sampleKeys : Dict String ApiKey :=
  Dict.empty.set "k" sampleKey

/-- Both letter cases of a method pass. -/
theorem verify_sampleGet (method : String) (hmethod : method = "GET" ∨ method = "get") :
    sampleConfig.verifyHmacRequest sampleKeys 1700000000000000 (sampleGet method) "read" =
      .ok (some (sampleKey.used 1700000000000000)) := by
  rcases hmethod with rfl | rfl
  · decide +kernel
  · decide +kernel

theorem sampleGet_plain (method : String) (hmethod : method = "GET" ∨ method = "get") :
    (sampleGet method).request.Plain sampleConfig := by
  rcases hmethod with rfl | rfl
  · exact ⟨by decide, by decide⟩
  · exact ⟨by decide, by decide⟩

/-- A request, and the same one again: the second is refused. -/
theorem signature_authorises_one_request_sample :
    (sampleGet "get").request = { (sampleGet "GET").request with method := "get" } ∧
      ∃ s, (apiService sampleConfig).ReachableUnder (fun t a => a.Plain sampleConfig t) s ∧
        s.accepted = [⟨sampleGet "GET", 1700000000000000⟩] ∧
          (s.accepted.map fun a => (a.signed.keyId, a.signed.signature)).Nodup := by
  rcases @signature_authorises_one_request sampleConfig (fun _ => length_hexdigest _)
    (fun _ => Digests.hash_injective _) with ⟨hone, honce⟩
  refine ⟨(hone _ _ _ _ _ _ _ _ _ _ (verify_sampleGet "get" (.inr rfl))
    (verify_sampleGet "GET" (.inl rfl)) (sampleGet_plain _ (.inr rfl))
    (sampleGet_plain _ (.inl rfl)) (by decide +kernel) fun _ => rfl).2, ?_⟩
  have hrun : ((apiService sampleConfig).exec (apiService sampleConfig).init
      (sampleActions [sampleGet "GET", sampleGet "GET"])).map ApiState.accepted =
        some [⟨sampleGet "GET", 1700000000000000⟩] := by
    decide +kernel
  rcases Option.map_eq_some_iff.mp hrun with ⟨s, hexec, hs⟩
  have hplain : ∀ a ∈ sampleActions [sampleGet "GET", sampleGet "GET"], ∀ t : ApiState,
      a.Plain sampleConfig t := by
    intro a ha t
    simp only [sampleActions, List.map_cons, List.map_nil, List.mem_cons, List.not_mem_nil,
      or_false] at ha
    have hrequest : ApiAction.Plain sampleConfig t (.request 1700000000000000 false "read"
        (sampleGet "GET").received) := by
      refine ⟨fun signed hsigned => ?_, fun hfails => by cases hfails⟩
      have hsame : (sampleGet "GET").received.signed? = some (sampleGet "GET") := by
        decide +kernel
      rw [hsame, Option.some.injEq] at hsigned
      rw [← hsigned]
      exact sampleGet_plain _ (.inl rfl)
    rcases ha with rfl | rfl | rfl
    · trivial
    · exact hrequest
    · exact hrequest
  have hreach : (apiService sampleConfig).ReachableUnder (fun t a => a.Plain sampleConfig t) s :=
    ⟨_, Machine.run_of_exec_all hexec hplain⟩
  exact ⟨s, hreach, hs, honce s hreach⟩

/-- One text is signed for two letter cases of the method; and a signature is accepted twice when
the bars of the text can stand in the path or in the nonce. -/
theorem signature_authorises_more :
    (¬ ∀ keys now scope key key', ∀ signed signed' : Signed,
      sampleConfig.verifyHmacRequest keys now signed scope = .ok (some key) →
        sampleConfig.verifyHmacRequest keys now signed' scope = .ok (some key') →
          utf8 (sampleConfig.message signed.request) =
            utf8 (sampleConfig.message signed'.request) → signed.request = signed'.request) ∧
      ¬ ∀ s, (apiService sampleConfig).Reachable s →
        (s.accepted.map fun a => (a.signed.keyId, a.signed.signature)).Nodup := by
  constructor
  · intro hone
    have hsame := hone _ _ _ _ _ _ _ (verify_sampleGet "GET" (.inl rfl))
      (verify_sampleGet "get" (.inr rfl)) (by decide +kernel)
    have hmethod := congrArg SignedRequest.method hsame
    revert hmethod
    decide
  · intro honce
    have hrun : ((apiService sampleConfig).exec (apiService sampleConfig).init
        (sampleActions [sampleSplit false, sampleSplit true])).map ApiState.accepted =
          some [⟨sampleSplit true, 1700000000000000⟩, ⟨sampleSplit false, 1700000000000000⟩] := by
      decide +kernel
    rcases Option.map_eq_some_iff.mp hrun with ⟨s, hexec, hs⟩
    have hnodup := honce s (Machine.reachable_of_exec hexec)
    rw [hs] at hnodup
    revert hnodup
    decide +kernel

end QuantumSentinel.Integration
