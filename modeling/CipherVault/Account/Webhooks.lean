import CipherVault.Account.Guards
import CipherVault.Account.Policy

/-!
# Account.Webhooks

`post_vcs_webhook` of `services/account/src/secret_routes.rs` and `apply_webhook_event` of `vcs.rs`.
A binding has its own secret, but a delivery names only the provider and the repository, which
several projects can have bound.
-/

namespace CipherVault.Account.Webhooks

open Crypto Network List

inductive VcsProvider where
  | github
  | gitlab
  | bitbucket
  | selfHosted
deriving DecidableEq

def VcsProvider.parse (raw : Text) : Option VcsProvider :=
  let name := Hex.lower (trim raw)
  if name = "github".toList then some .github
  else if name = "gitlab".toList then some .gitlab
  else if name = "bitbucket".toList then some .bitbucket
  else if name = "self-hosted".toList ∨ name = "self_hosted".toList then some .selfHosted
  else none

/-- The events that a webhook brings; `archived` is taken like `transferred`. -/
inductive BindingEvent where
  | renamed
  | transferred
  | deleted

/-- The transitions of a binding that is not revoked; a revoked one refuses these events. -/
def transition : BindingStatus → BindingEvent → Option BindingStatus
  | .revoked, _ => none
  | status, .renamed => some status
  | _, .transferred => some .suspended
  | _, .deleted => some .revoked

structure Binding where
  (bindingId tenantId projectId : Text)
  provider : VcsProvider
  (externalRepoId repoFullName repoUrl : Text)
  status : BindingStatus
deriving DecidableEq

/-- The table in the order in which a query finds its rows; the id is its primary key. -/
structure Bindings where
  rows : List Binding
  ids : (rows.map Binding.bindingId).Nodup

variable (t : Bindings)

variable {b b' : Binding}

namespace Bindings

def find (provider : VcsProvider) (externalRepoId : Text) : Option Binding :=
  t.rows.find? fun b => b.provider = provider ∧ b.externalRepoId = externalRepoId

def update (bindingId : Text) (f : Binding → Binding) (hf : ∀ b, (f b).bindingId = b.bindingId) :
    Bindings where
  rows := t.rows.map fun b => if b.bindingId = bindingId then f b else b
  ids := by
    have hids : (t.rows.map fun b => if b.bindingId = bindingId then f b else b).map Binding.bindingId =
        t.rows.map Binding.bindingId := by
      rw [map_map]
      refine map_congr_left fun b _ => ?_
      rw [Function.comp_apply]
      split
      · exact hf b
      · rfl
    rw [hids]
    exact t.ids

theorem of_find {provider : VcsProvider} {externalRepoId : Text} {t : Bindings}
    (h : t.find provider externalRepoId = some b) :
    b ∈ t.rows ∧ b.provider = provider ∧ b.externalRepoId = externalRepoId := by
  have hs := find?_some (show t.rows.find? _ = some b from h)
  exact ⟨mem_of_find?_eq_some h, of_decide_eq_true hs⟩

end Bindings

/-- HMAC-SHA-256 of a key and a message, and the JSON of an envelope: event, repository id, name and
url. -/
structure Externals where
  hmacSha256 : Bytes → Bytes → Bytes
  parseEnvelope : Bytes → Option (Text × Text × Text × Text)

variable (E : Externals) (master : Bytes)

def webhookKeyFor (bindingId : Text) : Bytes :=
  E.hmacSha256 master (ascii "cv-vcs-webhook-v1" ++ utf8 bindingId)

def webhookSecret (bindingId : Text) : Text := Hex.encode (webhookKeyFor E master bindingId)

def verifyWebhookSignature (provider : VcsProvider) (key payload : Bytes) (signatureHeader : Text) : Bool :=
  match provider with
  | .gitlab => trim signatureHeader = Hex.encode key
  | _ =>
    if "sha256=".toList <+: trim signatureHeader then
      match Hex.decode (trim ((trim signatureHeader).drop 7)) with
      | none => false
      | some expected => E.hmacSha256 (utf8 (Hex.encode key)) payload = expected
    else false

def sign (provider : VcsProvider) (secret : Text) (payload : Bytes) : Text :=
  match provider with
  | .gitlab => secret
  | _ => "sha256=".toList ++ Hex.encode (E.hmacSha256 (utf8 secret) payload)

def validateDisplayName (raw : Text) : Except Refusal Text :=
  let trimmed := trim raw
  if trimmed = [] ∨ (utf8 trimmed).length > 256 then
    .error ⟨400, "INVALID_BINDING_REQUEST", "repository full name must be 1-256 characters"⟩
  else if trimmed.any fun c => c.toNat < 32 ∨ c.toNat = 127 then
    .error ⟨400, "INVALID_BINDING_REQUEST", "repository full name must not contain control characters"⟩
  else .ok trimmed

def validateRepoUrl (raw : Text) : Except Refusal Text :=
  let trimmed := trim raw
  if trimmed = [] ∨ (utf8 trimmed).length > 2048 then
    .error ⟨400, "INVALID_BINDING_REQUEST", "repository URL must be 1-2048 characters"⟩
  else if ¬("https://".toList <+: trimmed ∨ "http://".toList <+: trimmed) then
    .error ⟨400, "INVALID_BINDING_REQUEST", "repository URL must start with http:// or https://"⟩
  else .ok trimmed

def unauthorized (message : String) : Refusal := ⟨401, "WEBHOOK_UNAUTHORIZED", message⟩

/-- What an event does to the binding that it is for, or why it is refused. -/
def effectOf (b : Binding) (eventType repoFullName repoUrl : Text) : Except Refusal Binding := do
  if b.status = .revoked then .ok b
  else
    let kind := Hex.lower (trim eventType)
    if kind = "renamed".toList then do
      let fullName ← validateDisplayName repoFullName
      let url ← validateRepoUrl repoUrl
      .ok { b with repoFullName := fullName, repoUrl := url,
                   status := (transition b.status .renamed).getD b.status }
    else if kind = "transferred".toList ∨ kind = "archived".toList then
      .ok { b with status := (transition b.status .transferred).getD b.status }
    else if kind = "deleted".toList then .ok { b with status := (transition b.status .deleted).getD b.status }
    else .error ⟨400, "INVALID_BINDING_REQUEST", s!"unknown webhook event '{String.ofList kind}'"⟩

theorem bindingId_of_effectOf {eventType repoFullName repoUrl : Text}
    (h : effectOf b eventType repoFullName repoUrl = .ok b') : b'.bindingId = b.bindingId := by
  unfold effectOf at h
  split at h
  · cases h
    rfl
  · dsimp only at h
    split at h
    · obtain ⟨fullName, -, h⟩ := bind_eq_ok.mp h
      obtain ⟨url, -, h⟩ := bind_eq_ok.mp h
      cases h
      rfl
    · split at h
      · cases h
        rfl
      · split at h <;> cases h
        rfl

def replace (b : Binding) (b' : Binding) : Bindings :=
  t.update b.bindingId (fun old => { b' with bindingId := old.bindingId }) fun _ => rfl

def applyWebhookEvent (provider : VcsProvider) (eventType externalRepoId repoFullName repoUrl : Text) :
    Except Refusal (Option (Text × BindingStatus)) × Bindings :=
  match t.find provider (trim externalRepoId) with
  | none => (.ok none, t)
  | some view =>
    match effectOf view eventType repoFullName repoUrl with
    | .error e => (.error e, t)
    | .ok next => (.ok (some (view.bindingId, next.status)), replace t view next)

def maxWebhookBytes : Nat := 1024 * 1024

/-- `post_vcs_webhook` with its signature header and the master key, if one is configured. -/
def postVcsWebhook (master : Option Bytes) (t : Bindings) (providerRaw : Text)
    (signature : Option Text) (body : Bytes) :
    Except Refusal (Option (Text × BindingStatus)) × Bindings :=
  if body.length > maxWebhookBytes then
    (.error ⟨413, "WEBHOOK_TOO_LARGE", "Webhook payload exceeds 1 MiB"⟩, t)
  else
    match VcsProvider.parse providerRaw with
    | none => (.error ⟨404, "UNKNOWN_VCS_PROVIDER", "Unknown VCS provider"⟩, t)
    | some provider =>
      match E.parseEnvelope body with
      | none =>
        (.error ⟨400, "INVALID_WEBHOOK_PAYLOAD",
          "Webhook body must be the normalized JSON envelope"⟩, t)
      | some (event, externalRepoId, repoFullName, repoUrl) =>
        match master with
        | none => (.error ⟨503, "VCS_WEBHOOK_UNCONFIGURED", "VCS webhook signing key is not configured"⟩, t)
        | some master =>
          let keyId := match t.find provider (trim externalRepoId) with
            | some b => b.bindingId
            | none => "unknown:".toList ++ trim externalRepoId
          match signature with
          | none => (.error (unauthorized "Missing webhook signature"), t)
          | some signature =>
            if verifyWebhookSignature E provider (webhookKeyFor E master keyId) body signature then
              applyWebhookEvent t provider event externalRepoId repoFullName repoUrl
            else (.error (unauthorized "Invalid webhook signature"), t)

theorem replace_rows (hb : b ∈ t.rows) (hid : b'.bindingId = b.bindingId) :
    (replace t b b').rows = t.rows.map fun row => if row = b then b' else row := by
  refine map_congr_left fun row hrow => ?_
  by_cases heq : row = b
  · subst heq
    simp only [if_true, ← hid]
  · have hne : row.bindingId ≠ b.bindingId := fun h => heq (inj_on_of_nodup_map t.ids hrow hb h)
    rw [if_neg hne, if_neg heq]

theorem changed_of_postVcsWebhook (t : Bindings) (providerRaw : Text) (signature : Option Text)
    (body : Bytes) :
    (postVcsWebhook E (some master) t providerRaw signature body).2 = t ∨
      ∃ b b' header, b ∈ t.rows ∧ signature = some header ∧
        verifyWebhookSignature E b.provider (webhookKeyFor E master b.bindingId) body header = true ∧
        (postVcsWebhook E (some master) t providerRaw signature body).2.rows =
          t.rows.map fun row => if row = b then b' else row := by
  unfold postVcsWebhook
  split
  · exact .inl rfl
  split
  · exact .inl rfl
  next provider _ =>
  split
  · exact .inl rfl
  next event externalRepoId repoFullName repoUrl _ =>
  cases signature with
  | none => exact .inl rfl
  | some header =>
    unfold applyWebhookEvent
    cases hf : t.find provider (trim externalRepoId) with
    | none =>
      dsimp only
      split <;> exact .inl rfl
    | some b =>
      dsimp only
      split
      next hver =>
        cases heff : effectOf b event repoFullName repoUrl with
        | error e => exact .inl rfl
        | ok next =>
          obtain ⟨hb, rfl, -⟩ := Bindings.of_find hf
          exact .inr ⟨b, next, header, hb, rfl, hver, replace_rows t hb (bindingId_of_effectOf heff)⟩
      · exact .inl rfl

theorem trim_encode (bytes : Bytes) : trim (Hex.encode bytes) = Hex.encode bytes :=
  trim_of_decode (Hex.decode_encode bytes)

theorem trim_signed (bytes : Bytes) :
    trim ("sha256=".toList ++ Hex.encode bytes) = "sha256=".toList ++ Hex.encode bytes := by
  refine trim_eq_self fun c hc => ?_
  rcases mem_append.mp hc with hc | hc
  · have hall : "sha256=".toList.all (fun c => !Snapshot.isWhiteSpace c) = true := by decide
    simpa using all_eq_true.mp hall c hc
  · exact isWhiteSpace_of_digit (Hex.digits_of_decode (Hex.decode_encode bytes) c hc)

theorem verify_sign (provider : VcsProvider) (master : Bytes) (bindingId : Text) (body : Bytes) :
    verifyWebhookSignature E provider (webhookKeyFor E master bindingId) body
      (sign E provider (webhookSecret E master bindingId) body) = true := by
  have hmac : ∀ tag : Bytes, "sha256=".toList <+: "sha256=".toList ++ Hex.encode tag ∧
      Hex.decode (trim (("sha256=".toList ++ Hex.encode tag).drop 7)) = some tag := by
    intro tag
    refine ⟨prefix_append _ _, ?_⟩
    rw [show ("sha256=".toList ++ Hex.encode tag).drop 7 = Hex.encode tag from rfl, trim_encode,
      Hex.decode_encode]
  cases provider with
  | gitlab => simp [verifyWebhookSignature, sign, webhookSecret, trim_encode]
  | github | bitbucket | selfHosted =>
    simp only [verifyWebhookSignature, sign, trim_signed, (hmac _).1, (hmac _).2]
    simp [webhookSecret]

/-- A delivery for a binding: it names its provider and repository and is signed with its secret. -/
structure Delivery (b : Binding) (providerRaw : Text) (body : Bytes)
    (event repoFullName repoUrl : Text) : Prop where
  small : body.length ≤ maxWebhookBytes
  provider : VcsProvider.parse providerRaw = some b.provider
  envelope : ∃ externalRepoId, E.parseEnvelope body = some (event, externalRepoId, repoFullName, repoUrl) ∧
    trim externalRepoId = b.externalRepoId

/-- The delivery with the signature of the binding is accepted for it, and has the effect `b'` on it
and none on any other binding. -/
def Reaches (t : Bindings) (b b' : Binding) (providerRaw : Text) (body : Bytes) : Prop :=
  let result := postVcsWebhook E (some master) t providerRaw
    (some (sign E b.provider (webhookSecret E master b.bindingId) body)) body
  result.1 = .ok (some (b.bindingId, b'.status)) ∧
    result.2.rows = t.rows.map fun row => if row = b then b' else row

/-- Only a binding whose secret has signed a delivery can change. -/
def OnlySigned (t : Bindings) : Prop :=
  ∀ providerRaw signature body,
    (postVcsWebhook E (some master) t providerRaw signature body).2 = t ∨
      ∃ c c' header, c ∈ t.rows ∧ signature = some header ∧
        verifyWebhookSignature E c.provider (webhookKeyFor E master c.bindingId) body header = true ∧
        (postVcsWebhook E (some master) t providerRaw signature body).2.rows =
          t.rows.map fun row => if row = c then c' else row

theorem reaches_of_find {t : Bindings} {providerRaw event name url : Text}
    {body : Bytes} (hfirst : t.find b.provider b.externalRepoId = some b)
    (hdel : Delivery E b providerRaw body event name url) (heff : effectOf b event name url = .ok b') :
    Reaches E master t b b' providerRaw body := by
  obtain ⟨externalRepoId, henv, hrepo⟩ := hdel.envelope
  rw [← hrepo] at hfirst
  have hres : postVcsWebhook E (some master) t providerRaw
      (some (sign E b.provider (webhookSecret E master b.bindingId) body)) body =
      (.ok (some (b.bindingId, b'.status)), replace t b b') := by
    simp only [postVcsWebhook, if_neg (Nat.not_lt.mpr hdel.small), hdel.provider, henv, hfirst,
      verify_sign, if_true, applyWebhookEvent, heff]
  rw [Reaches, hres]
  exact ⟨rfl, replace_rows t (Bindings.of_find hfirst).1 (bindingId_of_effectOf heff)⟩

/-- The answer names the binding that was found. -/
theorem find_of_reaches {t : Bindings} {providerRaw event name url : Text}
    {body : Bytes} (hb : b ∈ t.rows) (hdel : Delivery E b providerRaw body event name url)
    (h : Reaches E master t b b' providerRaw body) :
    t.find b.provider b.externalRepoId = some b := by
  obtain ⟨externalRepoId, henv, hrepo⟩ := hdel.envelope
  have hanswer := h.1
  simp only [postVcsWebhook, if_neg (Nat.not_lt.mpr hdel.small), hdel.provider, henv,
    applyWebhookEvent, hrepo] at hanswer
  cases hf : t.find b.provider b.externalRepoId with
  | none =>
    have hnone := find?_eq_none.mp (show t.rows.find? _ = none from hf) b hb
    simp at hnone
  | some view =>
    rw [hf] at hanswer
    dsimp only at hanswer
    split at hanswer
    · split at hanswer
      · cases hanswer
      · simp only [Except.ok.injEq, Option.some.injEq, Prod.mk.injEq] at hanswer
        rw [inj_on_of_nodup_map t.ids (Bindings.of_find hf).1 hb hanswer.1]
    · cases hanswer

/-- The events that are signed for a binding reach it exactly when it is the one that the query for
its repository finds. No delivery changes a binding whose secret has not signed it. -/
theorem webhook_reaches_its_binding (t : Bindings) (b : Binding) (hb : b ∈ t.rows) :
    (∀ providerRaw body event name url, Delivery E b providerRaw body event name url →
      ∀ b', effectOf b event name url = .ok b' →
        (Reaches E master t b b' providerRaw body ↔
          t.find b.provider b.externalRepoId = some b)) ∧
      OnlySigned E master t := by
  refine ⟨fun providerRaw body event name url hdel b' heff => ⟨?_, ?_⟩, ?_⟩
  · exact find_of_reaches E master hb hdel
  · exact fun hfirst => reaches_of_find E master hfirst hdel heff
  · exact changed_of_postVcsWebhook E master t

/-! ## Two projects, one repository -/

section

def sample : Externals where
  hmacSha256 key message := key ++ message
  parseEnvelope _ := some ("deleted".toList, "7".toList, "o/r".toList, "https://h/o/r".toList)

def bindingOf (bindingId projectId externalRepoId : String) : Binding :=
  ⟨bindingId.toList, "t".toList, projectId.toList, .github, externalRepoId.toList, "o/r".toList,
    "https://h/o/r".toList, .active⟩

def shared : Bindings := ⟨[bindingOf "b1" "p1" "7", bindingOf "b2" "p2" "7"], by decide⟩

/-- The event that is signed for the second binding of the repository is refused. -/
theorem second_binding_not_reached :
    Delivery sample (bindingOf "b2" "p2" "7") "github".toList [] "deleted".toList "o/r".toList
        "https://h/o/r".toList ∧
      effectOf (bindingOf "b2" "p2" "7") "deleted".toList "o/r".toList "https://h/o/r".toList =
        .ok { bindingOf "b2" "p2" "7" with status := .revoked } ∧
      ¬ Reaches sample [] shared (bindingOf "b2" "p2" "7")
        { bindingOf "b2" "p2" "7" with status := .revoked } "github".toList [] := by
  refine ⟨⟨by decide, by decide, "7".toList, rfl, by decide⟩, by decide, fun h => ?_⟩
  revert h
  unfold Reaches
  decide +kernel

theorem webhook_reaches_its_binding_first :
    Reaches sample [] shared (bindingOf "b1" "p1" "7")
      { bindingOf "b1" "p1" "7" with status := .revoked } "github".toList [] :=
  ((webhook_reaches_its_binding sample [] shared (bindingOf "b1" "p1" "7") (by decide)).1
    "github".toList [] "deleted".toList "o/r".toList "https://h/o/r".toList
    ⟨by decide, by decide, "7".toList, rfl, by decide⟩ _ (by decide)).mpr (by decide)

end

end CipherVault.Account.Webhooks
