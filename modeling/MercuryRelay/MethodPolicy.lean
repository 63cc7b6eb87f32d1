/-
  The policy of requests that enter the controller (method_policy.py).
-/
import MercuryRelay.Python.Json

set_option autoImplicit false

namespace MercuryRelay

open Python

/-- `ALLOWED_V1_METHODS`. -/
def allowedV1Methods : List Str :=
  [lit "approval.respond", lit "clarify.respond", lit "complete.slash", lit "config.set",
   lit "cron.manage", lit "delegation.status", lit "file.attach", lit "gateway.ping",
   lit "image.attach_bytes", lit "model.options", lit "process.list", lit "profiles.list",
   lit "projects.create", lit "projects.delete", lit "projects.project_sessions",
   lit "projects.set_active", lit "projects.tree", lit "prompt.submit",
   lit "session.active_list", lit "session.branch", lit "session.close", lit "session.compress",
   lit "session.context_breakdown", lit "session.create", lit "session.history",
   lit "session.interrupt", lit "session.resume", lit "session.steer", lit "session.undo",
   lit "session.usage"]

/-- `_PRIVILEGED_IDENTITY_FIELDS`. -/
def privilegedIdentityFields : List Str := [lit "auth_identity", lit "principal_id"]

/-- `_REQUEST_FIELDS`. -/
def requestFields : List Str := [lit "jsonrpc", lit "id", lit "method", lit "params"]

/-- The reason of a `MethodPolicyRejected`. -/
inductive PolicyReason where
  | invalidRequest | invalidJson | uncorrelatedRequest | methodNotAllowed | invalidParams
  | privilegedIdentity | profileNotAvailable
  deriving DecidableEq

def isProfileStart (c : ℕ) : Bool := (97 ≤ c && c ≤ 122) || (48 ≤ c && c ≤ 57)

/-- `PROFILE_ID_RE`: `^[a-z0-9][a-z0-9_-]{0,63}$`. -/
def validateProfileId : Str → Bool
  | [] => false
  | c :: s => isProfileStart c && s.length ≤ 63 && s.all fun c => isProfileStart c || c = 95 || c = 45

/-- `MethodPolicy`; without `usesAuthorizer` its own profile is the one it
    permits. -/
structure MethodPolicy where
  profile : Str
  allowedMethods : List Str := allowedV1Methods
  usesAuthorizer : Bool := true

/-- The request identifier has an answer to correlate: a text or an integer. -/
def correlated : Option Json → Bool
  | some (.str s) => s ≠ []
  | some (.int _) => true
  | _ => false

/-- `validate_text`: the text itself, or the reason of its rejection. -/
def MethodPolicy.validateText (policy : MethodPolicy) (depths : JsonDepths)
    (profileAuthorizer : Str → Bool) (raw : Str) : Except PolicyReason Str :=
  match loadsStrict depths raw with
  | none => .error .invalidJson
  | some (.obj request) =>
    if Json.lookup request (lit "jsonrpc") ≠ some (.str (lit "2.0")) then .error .invalidRequest
    else if ¬ request.all (fun m => m.1 ∈ requestFields) then .error .invalidRequest
    else if ¬ correlated (Json.lookup request (lit "id")) then .error .uncorrelatedRequest
    else
      match Json.lookup request (lit "method") with
      | some (.str method) =>
        if method ∉ policy.allowedMethods then .error .methodNotAllowed
        else
          match (Json.lookup request (lit "params")).getD (.obj []) with
          | .obj params =>
            if privilegedIdentityFields.any (Json.hasKey params) then .error .privilegedIdentity
            else
              match (Json.lookup params (lit "profile")).getD .null with
              | .null => .ok raw
              | .str requested =>
                if validateProfileId requested ∧
                    (if policy.usesAuthorizer then profileAuthorizer requested
                      else requested = policy.profile) then .ok raw
                else .error .profileNotAvailable
              | _ => .error .invalidParams
          | _ => .error .invalidParams
      | _ => .error .methodNotAllowed
  | some _ => .error .invalidRequest

/-- The policy lets a text through unchanged. -/
theorem MethodPolicy.validateText_ok {policy : MethodPolicy} {depths : JsonDepths}
    {authorizer : Str → Bool} {raw text : Str}
    (h : policy.validateText depths authorizer raw = .ok text) : text = raw := by
  unfold validateText at h
  repeat' split at h
  all_goals first
    | (cases h; done)
    | (cases h; rfl)

/-- What the policy asks of a request, its method and its parameters. -/
structure MethodPolicy.Permits (policy : MethodPolicy) (profileAuthorizer : Str → Bool)
    (request : List (Str × Json)) (method : Str) (params : List (Str × Json)) : Prop where
  version : Json.lookup request (lit "jsonrpc") = some (.str (lit "2.0"))
  fields : request.all (fun m => m.1 ∈ requestFields)
  correlated : correlated (Json.lookup request (lit "id"))
  named : Json.lookup request (lit "method") = some (.str method)
  allowed : method ∈ policy.allowedMethods
  arguments : (Json.lookup request (lit "params")).getD (.obj []) = .obj params
  identity : ¬ privilegedIdentityFields.any (Json.hasKey params)
  profile : (Json.lookup params (lit "profile")).getD .null = .null ∨
    ∃ requested, (Json.lookup params (lit "profile")).getD .null = .str requested ∧
      validateProfileId requested ∧
      if policy.usesAuthorizer then profileAuthorizer requested else requested = policy.profile

/-- **What the policy lets through.** -/
theorem MethodPolicy.validateText_iff {policy : MethodPolicy} {depths : JsonDepths}
    {authorizer : Str → Bool} {raw : Str} : policy.validateText depths authorizer raw = .ok raw ↔
      ∃ request method params, loadsStrict depths raw = some (.obj request) ∧
        policy.Permits authorizer request method params := by
  constructor
  · intro h
    unfold validateText at h
    split at h
    · cases h
    · rename_i request hvalue
      split at h
      · cases h
      · rename_i hversion
        split at h
        · cases h
        · rename_i hfields
          split at h
          · cases h
          · rename_i hid
            rw [not_not] at hversion hfields hid
            split at h
            · rename_i method hmethod
              split at h
              · cases h
              · rename_i hallowed
                rw [not_not] at hallowed
                split at h
                · rename_i params hparams
                  split at h
                  · cases h
                  · rename_i hidentity
                    refine ⟨request, method, params, hvalue,
                      ⟨hversion, hfields, hid, hmethod, hallowed, hparams, hidentity, ?_⟩⟩
                    split at h
                    · rename_i hnull
                      exact .inl hnull
                    · rename_i requested hrequested
                      by_cases hok : validateProfileId requested ∧
                          (if policy.usesAuthorizer then authorizer requested
                            else requested = policy.profile)
                      · exact .inr ⟨requested, hrequested, hok.1, hok.2⟩
                      · rw [if_neg hok] at h
                        cases h
                    · cases h
                · cases h
            · cases h
    · cases h
  · rintro ⟨request, method, params, hvalue, h⟩
    unfold validateText
    rw [hvalue]
    dsimp only
    rw [if_neg (not_not.2 h.version), if_neg (not_not.2 h.fields), if_neg (not_not.2 h.correlated),
      h.named]
    dsimp only
    rw [if_neg (not_not.2 h.allowed), h.arguments]
    dsimp only
    rw [if_neg h.identity]
    rcases h.profile with hnull | ⟨requested, hrequested, hvalid, hauthorized⟩
    · rw [hnull]
    · rw [hrequested]
      dsimp only
      rw [if_pos ⟨hvalid, hauthorized⟩]

end MercuryRelay
