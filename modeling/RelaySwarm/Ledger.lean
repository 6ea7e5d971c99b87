import RelaySwarm.Effect
import RelaySwarm.Script
import Mathlib.Data.Rat.Floor
import Mathlib.Data.List.Sort
import Mathlib.Data.String.Basic

/-!
The account ledger: cumulative uploads of accounts reached through verified
identities, short grants on them, and the operations charged to a grant. Linking
two identities leaves one account and an alias; renewing a grant leaves the old
one pointing at its successor. The clocks, the random tokens and the keyed digest
are a parameter (`World`). What the process remembers beside the state, the
highest wall clock it saw and the monotonic expiry of each grant, survives a
refused operation (`Side`).
-/
namespace RelaySwarm.Ledger
open Script Effect

def amount (value : Int) : Bool := isSafeInteger value && 0 ≤ value && value ≤ 1000000000000
def methodsValid (value : List String) : Bool :=
  value = ["nostr"] || value = ["website"] || value = ["nostr","website"]

structure Refusal where
  code : String
  status : Nat
deriving DecidableEq

structure Options where
  defaultLimit : Int
  grantTtlSeconds : Int
  delegationTtlSeconds : Int
  accountCapacity : Nat
  identityCapacity : Nat
  grantCapacity : Nat
  operationCapacity : Nat

/-- What an account has spent of its limit. -/
structure Balance where
  limit : Int
  spent : Int
  revision : Int
  generation : Int
deriving DecidableEq
/-- An account holds a balance, or stands for another account. -/
inductive Holding where
  | balance (b : Balance)
  | aliasTo (id : String)
deriving DecidableEq
structure Account where
  id : String
  holding : Holding
deriving DecidableEq
structure Identity where
  id : String
  method : String
  accountId : String
deriving DecidableEq
structure Renewal where
  operationId : String
  token : String
deriving DecidableEq
structure Grant where
  token : String
  accountId : String
  pagePubkey : String
  methods : List String
  websiteIdentity : Option String
  epoch : Int
  expiresAt : Int
  delegationExpiresAt : Int
  revoked : Bool
  renewal : Option Renewal
deriving DecidableEq
/-- A charge made under a grant, accepted or not. -/
structure Decision where
  grant : String
  operationId : String
  bytes : Int
  accepted : Bool
deriving DecidableEq
/-- The durable state. -/
structure Data where
  secret : String
  lastWall : Int
  accounts : List Account
  identities : List Identity
  grants : List Grant
  operations : List Decision
deriving DecidableEq

/-- The monotonic times at which a grant and its delegation end in this process. -/
structure Expiry where
  grant : ℚ
  delegation : ℚ
/-- What the process keeps beside the state, and how much of the world it has read. -/
structure Side where
  highestWall : Int
  expiries : String → Option Expiry
  walls : Nat
  monos : Nat
  tokens : Nat
  ids : Nat

/-- An identity that its method has verified. -/
structure Verified where
  method : String
  issuer : String
  subject : String
deriving DecidableEq
/-- The readings of the clocks, the random tokens and identifiers, and the keyed
    digest of an identity. A wall clock reading that is no safe integer is `none`. -/
structure World where
  now : Nat → Option Int
  monotonic : Nat → ℚ
  token : Nat → String
  accountId : Nat → String
  digest : String → Verified → String

abbrev LedgerM := Effect Side Refusal

section
variable (world : World) (options : Options)

/-- The wall clock, which never goes back. -/
def time : LedgerM Int := fun s =>
  match world.now s.walls with
  | none => (.error ⟨"account-clock-unavailable",503⟩,{ s with walls := s.walls + 1 })
  | some moment =>
    if moment < s.highestWall then (.error ⟨"account-clock-unavailable",503⟩,{ s with walls := s.walls + 1 })
    else (.ok moment,{ s with walls := s.walls + 1, highestWall := moment })
def monotonicNow : LedgerM ℚ := fun s => (.ok (world.monotonic s.monos),{ s with monos := s.monos + 1 })
def randomToken : LedgerM String := fun s => (.ok (world.token s.tokens),{ s with tokens := s.tokens + 1 })
def randomId : LedgerM String := fun s => (.ok (world.accountId s.ids),{ s with ids := s.ids + 1 })
def expiryOf (token : String) : LedgerM (Option Expiry) := fun s => (.ok (s.expiries token),s)
def setExpiry (token : String) (expiry : Expiry) : LedgerM PUnit := fun s =>
  (.ok ⟨⟩,{ s with expiries := fun other => if other = token then some expiry else s.expiries other })
/-- Expiries of tokens that are no longer granted are forgotten. -/
def keepExpiries (live : List String) : LedgerM PUnit := fun s =>
  (.ok ⟨⟩,{ s with expiries := fun token => if token ∈ live then s.expiries token else none })

def stateInvalid : Refusal := ⟨"account-state-invalid",503⟩

/-- Follow aliases to a balance. More steps than there are accounts have come back
    to an account visited before. -/
def canonicalFrom (accounts : List Account) : Nat → String → Option (String × Balance)
  | 0,_ => none
  | steps + 1,id =>
    match accounts.find? (·.id = id) with
    | none => none
    | some account =>
      match account.holding with
      | .balance b => some (account.id,b)
      | .aliasTo next => canonicalFrom accounts steps next
def canonical (data : Data) (id : String) : Option (String × Balance) :=
  canonicalFrom data.accounts (data.accounts.length + 1) id
/-- The first account with the identifier holds something else. -/
def replaceHolding (id : String) (holding : Holding) : List Account → List Account
  | [] => []
  | account :: rest =>
    if account.id = id then { account with holding } :: rest else account :: replaceHolding id holding rest
def Data.setHolding (data : Data) (id : String) (holding : Holding) : Data :=
  { data with accounts := replaceHolding id holding data.accounts }

def accountValid (data : Data) (account : Account) : Bool :=
  hex account.id 32 && (match account.holding with
    | .aliasTo next => hex next 32
    | .balance b => amount b.limit && isSafeInteger b.spent && 0 ≤ b.spent && isSafeInteger b.revision &&
        1 ≤ b.revision && isSafeInteger b.generation && 1 ≤ b.generation) && (canonical data account.id).isSome
def identityValid (data : Data) (identity : Identity) : Bool :=
  hex identity.id 64 && (identity.method = "nostr" || identity.method = "website") &&
    data.accounts.any (·.id = identity.accountId)
def grantValid (data : Data) (grant : Grant) : Bool :=
  hex grant.token 64 && hex grant.pagePubkey 64 && methodsValid grant.methods &&
    data.accounts.any (·.id = grant.accountId) && isSafeInteger grant.epoch &&
    isSafeInteger grant.expiresAt && isSafeInteger grant.delegationExpiresAt &&
    grant.expiresAt ≤ grant.delegationExpiresAt && grant.websiteIdentity.all (fun id => hex id 64) &&
    grant.renewal.all (fun renewal => hex renewal.operationId 32 && hex renewal.token 64)
def decisionValid (data : Data) (decision : Decision) : Bool :=
  data.grants.any (·.token = decision.grant) && hex decision.operationId 32 &&
    amount decision.bytes && 1 ≤ decision.bytes
/-- The checks of a state but the one against the clock. -/
def Data.valid (data : Data) : Prop :=
  (data.accounts.length ≤ options.accountCapacity ∧ data.identities.length ≤ options.identityCapacity ∧
    data.grants.length ≤ options.grantCapacity ∧ data.operations.length ≤ options.operationCapacity) ∧
  ((data.accounts.map (·.id)).Nodup ∧ (data.identities.map (·.id)).Nodup ∧ (data.grants.map (·.token)).Nodup ∧
    (data.operations.map (fun o => (o.grant,o.operationId))).Nodup) ∧
  (∀ account ∈ data.accounts, accountValid data account) ∧ (∀ identity ∈ data.identities, identityValid data identity) ∧
  (∀ grant ∈ data.grants, grantValid data grant) ∧ ∀ decision ∈ data.operations, decisionValid data decision
instance (data : Data) : Decidable (data.valid options) := inferInstanceAs (Decidable (_ ∧ _ ∧ _ ∧ _ ∧ _ ∧ _))
def validate (data : Data) : LedgerM PUnit := do
  refuseIf (¬ (hex data.secret 64 ∧ isSafeInteger data.lastWall ∧ 0 ≤ data.lastWall)) stateInvalid
  let moment ← time world
  refuseIf (moment < data.lastWall ∨ ¬ data.valid options) stateInvalid

/-- The stable identifier of a verified identity in this ledger. -/
def identityId (data : Data) (value : Verified) : LedgerM String := do
  refuseIf ((value.method ≠ "nostr" ∧ value.method ≠ "website") ∨ value.issuer = "" ∨ 128 < units value.issuer ∨
    value.subject = "" ∨ 512 < byteLength value.subject) ⟨"account-identity-unavailable",403⟩
  pure (world.digest data.secret value)

/-- The grants whose replay scope is not dead; each is judged by its own reading. -/
def liveGrants : List Grant → LedgerM (List Grant)
  | [] => pure []
  | grant :: rest => do
    let moment ← time world
    let later ← liveGrants rest
    pure (if moment < grant.expiresAt + 30000 then grant :: later else later)
/-- Accounts, aliases and spent never expire. Only dead replay scopes are pruned. -/
def prune (data : Data) : LedgerM Data := do
  let grants ← liveGrants world data.grants
  let live := grants.map (·.token)
  keepExpiries live
  pure { data with grants, operations := data.operations.filter (fun decision => decision.grant ∈ live) }

structure Snapshot where
  limit : Int
  spent : Int
  remaining : Int
  revision : Int
  generation : Int
  linkedMethods : List String
deriving DecidableEq
/-- The methods of the identities whose account is this one. -/
def linkedMethods (data : Data) (account : String) : Option (List String) := do
  let owners ← data.identities.mapM (fun identity =>
    (canonical data identity.accountId).map (fun owner => (identity.method,owner.1)))
  pure (((owners.filter (·.2 = account)).map (·.1)).dedup.insertionSort (· ≤ ·))
def snapshot (data : Data) (account : String × Balance) : LedgerM Snapshot := do
  let linkedMethods ← require (linkedMethods data account.1) stateInvalid
  pure ⟨account.2.limit,account.2.spent,max 0 (account.2.limit - account.2.spent),account.2.revision,
    account.2.generation,linkedMethods⟩

def grantUnavailable : Refusal := ⟨"account-grant-unavailable",403⟩
/-- The grant of a token and its account, while both clocks and the account's
    revision allow its use. -/
def grant (data : Data) (token : String) : LedgerM (Grant × String × Balance) := do
  let expiry ← expiryOf token
  let mono ← monotonicNow world
  let value ← require (data.grants.find? (·.token = token)) grantUnavailable
  refuseIf (value.revoked = true) grantUnavailable
  let moment ← time world
  refuseIf (value.expiresAt ≤ moment) grantUnavailable
  let later ← time world
  refuseIf (value.delegationExpiresAt ≤ later) grantUnavailable
  let expiry ← require expiry grantUnavailable
  refuseIf (expiry.grant ≤ mono ∨ expiry.delegation ≤ mono) grantUnavailable
  let account ← require (canonical data value.accountId) stateInvalid
  refuseIf (account.2.revision ≠ value.epoch) grantUnavailable
  pure (value,account)

structure GrantResponse where
  grant : String
  expiresAt : Int
  delegationExpiresAt : Int
  epoch : Int
  requiresFreshUploadConsent : Bool
  snapshot : Snapshot
deriving DecidableEq
def grantResponse (data : Data) (value : Grant) (fresh : Bool) : LedgerM GrantResponse := do
  let account ← require (canonical data value.accountId) stateInvalid
  let snapshot ← snapshot data account
  pure ⟨value.token,value.expiresAt,value.delegationExpiresAt,value.epoch,fresh,snapshot⟩

/-- What a grant is issued for. The prior token is that of the grant it renews. -/
structure Issue where
  pagePubkey : String
  methods : List String
  delegationExpiresAt : Int
  websiteIdentity : Option String
  prior : Option String
/-- The monotonic end of a delegation: that of the grant renewed, or a new one. -/
def delegationEnd (request : Issue) (mono : ℚ) : LedgerM ℚ :=
  match request.prior with
  | some prior => do
    let expiry ← expiryOf prior
    let expiry ← require expiry stateInvalid
    pure expiry.delegation
  | none => do
    let moment ← time world
    pure (mono + max 0 ((request.delegationExpiresAt - moment : Int) : ℚ))
/-- A new grant on the account. -/
def issue (data : Data) (account : String × Balance) (request : Issue) : LedgerM (Grant × Data) := do
  refuseIf (options.grantCapacity ≤ data.grants.length) ⟨"account-grant-capacity",429⟩
  let token ← randomToken world
  let moment ← time world
  let value : Grant := {
    token, accountId := account.1, pagePubkey := request.pagePubkey, methods := request.methods,
    websiteIdentity := request.websiteIdentity, epoch := account.2.revision,
    expiresAt := min (moment + options.grantTtlSeconds * 1000) request.delegationExpiresAt,
    delegationExpiresAt := request.delegationExpiresAt, revoked := false, renewal := none }
  let mono ← monotonicNow world
  let later ← time world
  let delegation ← delegationEnd world request mono
  setExpiry token ⟨mono + max 0 ((value.expiresAt - later : Int) : ℚ),delegation⟩
  pure (value,{ data with grants := data.grants ++ [value] })

structure Settings where
  limit : Int
  reset : Bool
structure Authorisation where
  pagePubkey : String
  methods : List String
  delegationExpiresAt : Int
  authorisationExpiresAt : Int
  settings : Option Settings
  link : Bool

/-- A new identity gets a new account. -/
def enrolNew (data : Data) (id method : String) : LedgerM (Identity × Data) := do
  refuseIf (options.identityCapacity ≤ data.identities.length ∨ options.accountCapacity ≤ data.accounts.length)
    ⟨"account-capacity",429⟩
  let accountId ← randomId world
  let record : Identity := ⟨id,method,accountId⟩
  pure (record,{ data with
    accounts := data.accounts ++ [⟨accountId,.balance ⟨options.defaultLimit,0,1,1⟩⟩]
    identities := data.identities ++ [record] })
/-- The record of an identity, new or not. -/
def enrol (data : Data) (value : Verified) : LedgerM (Identity × Data) := do
  let id ← identityId world data value
  match data.identities.find? (·.id = id) with
  | some record => pure (record,data)
  | none => enrolNew world options data id value.method
def enrolAll (data : Data) : List Verified → LedgerM (List Identity × Data)
  | [] => pure ([],data)
  | value :: rest => do
    let first ← enrol world options data value
    let later ← enrolAll first.2 rest
    pure (first.1 :: later.1,later.2)

/-- The balance of two linked accounts: their spend is added, the lower limit kept. -/
def Balance.linked (b other : Balance) : Balance where
  limit := min b.limit other.limit
  spent := b.spent + other.spent
  revision := max b.revision other.revision + 1
  generation := max b.generation other.generation + 1
/-- The account of the first identity takes over that of the second. -/
def linkAccounts (data : Data) (account : String × Balance) (otherId : String) :
    LedgerM ((String × Balance) × Data) := do
  let other ← require (canonical data otherId) stateInvalid
  if other.1 = account.1 then
    let b := { account.2 with revision := account.2.revision + 1 }
    pure ((account.1,b),data.setHolding account.1 (.balance b))
  else do
    refuseIf (isSafeInteger (account.2.spent + other.2.spent) = false) ⟨"account-spend-overflow",409⟩
    let b := account.2.linked other.2
    pure ((account.1,b),(data.setHolding account.1 (.balance b)).setHolding other.1 (.aliasTo account.1))
def Balance.adjusted (b : Balance) (settings : Settings) : Balance where
  limit := settings.limit
  spent := if settings.reset then 0 else b.spent
  revision := b.revision + 1
  generation := if settings.reset then b.generation + 1 else b.generation
/-- Every selected grant is revoked; the account of each must resolve. -/
def revokeWhere (data : Data) (account : String) (selected : Grant → Bool) : LedgerM Data := do
  refuseIf (¬ ∀ grant ∈ data.grants, (canonical data grant.accountId).isSome) stateInvalid
  pure { data with grants := data.grants.map (fun grant =>
    if (canonical data grant.accountId).any (·.1 = account) && selected grant then
      { grant with revoked := true } else grant) }

def authorisationInvalid : Refusal := ⟨"account-authorisation-invalid",400⟩
/-- The checks of an authorisation, in the order they are made. -/
def checkAuthorisation (identities : List Verified) (request : Authorisation) : LedgerM PUnit := do
  refuseIf (¬ (hex request.pagePubkey 64 ∧ methodsValid request.methods ∧ identities.length = request.methods.length ∧
    identities.map (·.method) = request.methods ∧ isSafeInteger request.delegationExpiresAt)) authorisationInvalid
  let moment ← time world
  refuseIf (request.delegationExpiresAt ≤ moment) authorisationInvalid
  let moment ← time world
  refuseIf (moment + options.delegationTtlSeconds * 1000 < request.delegationExpiresAt ∨
    isSafeInteger request.authorisationExpiresAt = false) authorisationInvalid
  let moment ← time world
  refuseIf (request.authorisationExpiresAt ≤ moment ∨ request.link ≠ decide (identities.length = 2) ∨
    request.settings.any (fun settings => !amount settings.limit)) authorisationInvalid

/-- The account of the first identity takes over that of the second when linking. -/
def linkRecords (data : Data) (account : String × Balance) (records : List Identity) (link : Bool) :
    LedgerM ((String × Balance) × Data) :=
  match link,records[1]? with
  | true,some second => linkAccounts data account second.accountId
  | _,_ => pure (account,data)
/-- Settings set the limit, and clear the spend when they reset it. -/
def applySettings (linked : (String × Balance) × Data) (settings : Option Settings) : (String × Balance) × Data :=
  match settings with
  | none => linked
  | some settings =>
    let b := linked.1.2.adjusted settings
    ((linked.1.1,b),linked.2.setHolding linked.1.1 (.balance b))
/-- What an authorisation does to the account of its first identity. -/
def adjustAccount (data : Data) (records : List Identity) (request : Authorisation) :
    LedgerM ((String × Balance) × Data) := do
  let first ← require records.head? stateInvalid
  let account ← require (canonical data first.accountId) stateInvalid
  let linked ← linkRecords data account records request.link
  pure (applySettings linked request.settings)
/-- A link or new settings end every earlier grant of the account. -/
def revokeEarlier (data : Data) (account : String) (request : Authorisation) : LedgerM Data :=
  if request.link ∨ request.settings.isSome then revokeWhere data account (fun _ => true) else pure data

def authorize (identities : List Verified) (request : Authorisation) (data : Data) :
    LedgerM (GrantResponse × Data) := do
  checkAuthorisation world options identities request
  let enrolled ← enrolAll world options data identities
  let adjusted ← adjustAccount enrolled.2 enrolled.1 request
  let data ← revokeEarlier adjusted.2 adjusted.1.1 request
  let website := enrolled.1.find? (fun record => record.method = "website")
  let issued ← issue world options data adjusted.1 ⟨request.pagePubkey,request.methods,request.delegationExpiresAt,
    website.map (·.id),none⟩
  let response ← grantResponse issued.2 issued.1 true
  pure (response,issued.2)

structure Inspection where
  pagePubkey : String
  methods : List String
  websiteIdentity : Option String
  expiresAt : Int
  delegationExpiresAt : Int
  epoch : Int
  snapshot : Snapshot
deriving DecidableEq
def inspectGrant (token : String) (data : Data) : LedgerM Inspection := do
  let found ← grant world data token
  let snapshot ← snapshot data found.2
  pure ⟨found.1.pagePubkey,found.1.methods,found.1.websiteIdentity,found.1.expiresAt,found.1.delegationExpiresAt,
    found.1.epoch,snapshot⟩

structure Reservation where
  accepted : Bool
  duplicate : Bool
  reservedBytes : Int
  reason : Option String
  snapshot : Snapshot
deriving DecidableEq
/-- The decision on a new charge. -/
def decide' (token operationId : String) (bytes : Int) (b : Balance) : Decision :=
  ⟨token,operationId,bytes,decide (bytes ≤ max 0 (b.limit - b.spent))⟩
/-- A new decision is recorded, and charged when it is accepted. -/
def record (data : Data) (account : String × Balance) (decision : Decision) : (String × Balance) × Data :=
  let b := if decision.accepted then { account.2 with spent := account.2.spent + decision.bytes } else account.2
  ((account.1,b),{ data.setHolding account.1 (.balance b) with operations := data.operations ++ [decision] })
def reserve (token operationId : String) (bytes : Int) (data : Data) : LedgerM (Reservation × Data) := do
  let found ← grant world data token
  refuseIf (¬ (hex operationId 32 ∧ amount bytes ∧ 1 ≤ bytes)) ⟨"account-reservation-invalid",400⟩
  let previous := data.operations.find? (fun o => o.grant = token && o.operationId = operationId)
  refuseIf (previous.any (fun o => o.bytes ≠ bytes)) ⟨"account-operation-conflict",409⟩
  refuseIf (previous = none ∧ options.operationCapacity ≤ data.operations.length) ⟨"account-operation-capacity",429⟩
  let decision := previous.getD (decide' token operationId bytes found.2.2)
  let recorded := if previous.isSome then (found.2,data) else record data found.2 decision
  let snapshot ← snapshot recorded.2 recorded.1
  pure (⟨decision.accepted,previous.isSome,if decision.accepted then bytes else 0,
    if decision.accepted then none else some "exhausted",snapshot⟩,recorded.2)

/-- The first grant with the token now points at its successor. -/
def setRenewal (token : String) (renewal : Renewal) : List Grant → List Grant
  | [] => []
  | grant :: rest =>
    if grant.token = token then { grant with renewal := some renewal } :: rest
      else grant :: setRenewal token renewal rest
/-- The successor already issued, for the operation that asked for it. -/
def repeatRenewal (data : Data) (renewal : Renewal) (operationId : String) : LedgerM (GrantResponse × Data) := do
  refuseIf (renewal.operationId ≠ operationId) ⟨"account-renewal-conflict",409⟩
  let next ← grant world data renewal.token
  let response ← grantResponse data next.1 false
  pure (response,data)
/-- A new successor within the same delegation. -/
def firstRenewal (data : Data) (found : Grant × String × Balance) (token operationId : String) :
    LedgerM (GrantResponse × Data) := do
  let issued ← issue world options data found.2 ⟨found.1.pagePubkey,found.1.methods,found.1.delegationExpiresAt,
    found.1.websiteIdentity,some token⟩
  let renewed := { issued.2 with grants := setRenewal token ⟨operationId,issued.1.token⟩ issued.2.grants }
  let response ← grantResponse renewed issued.1 false
  pure (response,renewed)
def renew (token operationId : String) (websiteIdentity : Option String) (data : Data) :
    LedgerM (GrantResponse × Data) := do
  let found ← grant world data token
  refuseIf (¬ (hex operationId 32 ∧ found.1.websiteIdentity = websiteIdentity)) ⟨"account-renewal-invalid",403⟩
  match found.1.renewal with
  | some renewal => repeatRenewal world data renewal operationId
  | none => firstRenewal world options data found token operationId

/-- Disconnect ends this page's original delegation, retained renewals included. -/
def revokeGrant (token : String) (data : Data) : LedgerM Data := do
  let found ← grant world data token
  revokeWhere data found.2.1 (fun other => other.pagePubkey = found.1.pagePubkey &&
    other.delegationExpiresAt = found.1.delegationExpiresAt)

inductive Request where
  | authorize (identities : List Verified) (request : Authorisation)
  | inspectGrant (token : String)
  | reserve (token operationId : String) (bytes : Int)
  | renew (token operationId : String) (websiteIdentity : Option String)
  | revokeGrant (token : String)
inductive Answer where
  | granted (response : GrantResponse)
  | inspected (inspection : Inspection)
  | reserved (reservation : Reservation)
  | revoked
deriving DecidableEq

/-- Every request but an inspection may change the state. -/
def Request.write : Request → Bool
  | .inspectGrant _ => false
  | _ => true
def Request.operation (request : Request) (data : Data) : LedgerM (Answer × Data) :=
  match request with
  | .authorize identities request => do
    let done ← Ledger.authorize world options identities request data
    pure (.granted done.1,done.2)
  | .inspectGrant token => do
    let inspection ← Ledger.inspectGrant world token data
    pure (.inspected inspection,data)
  | .reserve token operationId bytes => do
    let done ← Ledger.reserve world options token operationId bytes data
    pure (.reserved done.1,done.2)
  | .renew token operationId websiteIdentity => do
    let done ← Ledger.renew world options token operationId websiteIdentity data
    pure (.granted done.1,done.2)
  | .revokeGrant token => do
    let data ← Ledger.revokeGrant world token data
    pure (.revoked,data)

def operationCancelled : Refusal := ⟨"account-operation-cancelled",503⟩
/-- A request as it is applied: what its signal says before and after. -/
structure Entry where
  request : Request
  abortedBefore : Bool
  abortedAfter : Bool
/-- The state a request works on: a pruned copy when it may change it. -/
def candidate (request : Request) (working : Data) : LedgerM Data :=
  if request.write then prune world working else pure working
/-- The state a request leaves, when it may change it. -/
def commit (request : Request) (working : Data) (done : Answer × Data) : LedgerM (Answer × Data) :=
  if request.write then do
    let moment ← time world
    let next := { done.2 with lastWall := moment }
    validate world options next
    pure (done.1,next)
  else pure (done.1,working)
/-- One request applied to the working state: its answer and the next state, or a
    refusal. -/
def apply (entry : Entry) (working : Data) : LedgerM (Answer × Data) := do
  refuseIf (entry.abortedBefore = true) operationCancelled
  let moment ← time world
  refuseIf (moment < working.lastWall) ⟨"account-clock-unavailable",503⟩
  let candidate ← candidate world entry.request working
  let done ← entry.request.operation world options candidate
  refuseIf (entry.abortedAfter = true) operationCancelled
  commit world options entry.request working done

def emptyData (secret : String) (moment : Int) : Data := ⟨secret,moment,[],[],[],[]⟩
/-- The monotonic expiries of a restarted process. -/
def rebuiltExpiry (moment : Int) (mono : ℚ) (grant : Grant) : Expiry where
  grant := mono + min (options.grantTtlSeconds * 1000 : Int) (max 0 (grant.expiresAt - moment))
  delegation := mono + min (options.delegationTtlSeconds * 1000 : Int) (max 0 (grant.delegationExpiresAt - moment))
def rebuildExpiries (moment : Int) (mono : ℚ) (grants : List Grant) : LedgerM PUnit := fun s =>
  (.ok ⟨⟩,{ s with expiries := fun token =>
    (grants.find? (·.token = token)).map (rebuiltExpiry options moment mono) })
/-- A new process opens the durable state; it starts only when this succeeds. -/
def reopen (file : Data) : LedgerM PUnit := do
  fun s => (.ok ⟨⟩,{ s with highestWall := max 0 file.lastWall, expiries := fun _ => none })
  validate world options file
  let moment ← time world
  let mono ← monotonicNow world
  rebuildExpiries options moment mono file.grants

end
end RelaySwarm.Ledger
