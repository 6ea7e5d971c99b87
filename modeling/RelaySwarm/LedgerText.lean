import RelaySwarm.JsonLength
import RelaySwarm.Ledger

/-!
The text of the ledger's state as its store writes it, and how long it can get. Rows
of a valid state have no more units than the widest row of their kind, so a valid
state has none beyond `Options.widest`; some valid state is as long (`widest_iff`).
-/
namespace RelaySwarm.Ledger
open JsonText hiding hexDigit escape
open Script

def unitsText (text : String) : Text := text.toList.flatMap (fun c => codePoint c.toNat)
def textValue (text : String) : Value := .string (unitsText text)

def Account.value (account : Account) : Value :=
  match account.holding with
  | .balance b => .object [(lit "id",textValue account.id),(lit "limit",.number b.limit),(lit "spent",.number b.spent),
      (lit "revision",.number b.revision),(lit "generation",.number b.generation)]
  | .aliasTo next => .object [(lit "id",textValue account.id),(lit "aliasTo",textValue next)]
def Identity.value (identity : Identity) : Value :=
  .object [(lit "id",textValue identity.id),(lit "method",textValue identity.method),
    (lit "accountId",textValue identity.accountId)]
def Renewal.value (renewal : Renewal) : Value :=
  .object [(lit "operationId",textValue renewal.operationId),(lit "token",textValue renewal.token)]
def Grant.value (grant : Grant) : Value :=
  .object [(lit "token",textValue grant.token),(lit "accountId",textValue grant.accountId),
    (lit "pagePubkey",textValue grant.pagePubkey),(lit "methods",.array (grant.methods.map textValue)),
    (lit "websiteIdentity",grant.websiteIdentity.elim .null textValue),(lit "epoch",.number grant.epoch),
    (lit "expiresAt",.number grant.expiresAt),(lit "delegationExpiresAt",.number grant.delegationExpiresAt),
    (lit "revoked",.bool grant.revoked),(lit "renewal",grant.renewal.elim .null Renewal.value)]
def Decision.value (decision : Decision) : Value :=
  .object [(lit "grant",textValue decision.grant),(lit "operationId",textValue decision.operationId),
    (lit "bytes",.number decision.bytes),(lit "accepted",.bool decision.accepted)]
def Data.value (data : Data) : Value :=
  .object [(lit "v",.number 1),(lit "secret",textValue data.secret),(lit "lastWall",.number data.lastWall),
    (lit "accounts",.array (data.accounts.map Account.value)),
    (lit "identities",.array (data.identities.map Identity.value)),
    (lit "grants",.array (data.grants.map Grant.value)),
    (lit "operations",.array (data.operations.map Decision.value))]
def Data.text (data : Data) : Text := write data.value ++ [10]

def maxBytes : Nat := 2 * 1024 * 1024
/-- The store does not refuse the state for its size. -/
def Data.fits (data : Data) : Prop := (utf8Bytes data.text).length ≤ maxBytes
instance (data : Data) : Decidable data.fits := inferInstanceAs (Decidable (_ ≤ _))

/-- The options a ledger is made with. -/
def Options.accepted (options : Options) : Prop :=
  amount options.defaultLimit = true ∧ (30 ≤ options.grantTtlSeconds ∧ options.grantTtlSeconds ≤ 300) ∧
  (options.grantTtlSeconds ≤ options.delegationTtlSeconds ∧ options.delegationTtlSeconds ≤ 86400) ∧
  (1 ≤ options.accountCapacity ∧ options.accountCapacity ≤ 4096) ∧
  (1 ≤ options.identityCapacity ∧ options.identityCapacity ≤ 8192) ∧
  (1 ≤ options.grantCapacity ∧ options.grantCapacity ≤ 8192) ∧
  (1 ≤ options.operationCapacity ∧ options.operationCapacity ≤ 32768)
instance (options : Options) : Decidable options.accepted := inferInstanceAs (Decidable (_ ∧ _ ∧ _ ∧ _ ∧ _ ∧ _ ∧ _))

/-- Every check of a state but the one against the clock. -/
def Data.sound (options : Options) (data : Data) : Prop :=
  (hex data.secret 64 = true ∧ isSafeInteger data.lastWall = true ∧ 0 ≤ data.lastWall) ∧ data.valid options
instance (options : Options) (data : Data) : Decidable (data.sound options) := inferInstanceAs (Decidable (_ ∧ _))

/-- The bytes of a state whose capacities are used up with the widest rows of each kind:
    balances, linked identities, renewed grants, and refused operations. -/
def Options.widest (options : Options) : Nat :=
  166 + 147 * options.accountCapacity + 140 * options.identityCapacity + 567 * options.grantCapacity +
    165 * options.operationCapacity

/-! ### Rows -/


theorem hex_printed {text : String} {length : Nat} (digits : hex text length = true) :
    Printed (unitsText text) ∧ (unitsText text).length = length := by
  simp only [hex,Bool.and_eq_true,decide_eq_true_eq,List.all_eq_true,Bool.or_eq_true] at digits
  obtain ⟨long,each⟩ := digits
  have ascii : ∀ c ∈ text.toList, (48 ≤ c.toNat ∧ c.toNat ≤ 57) ∨ (97 ≤ c.toNat ∧ c.toNat ≤ 102) :=
    fun c member => each c member
  have plain : unitsText text = text.toList.map Char.toNat := by
    unfold unitsText
    rw [List.map_eq_flatMap]
    refine List.flatMap_congr fun c member => ?_
    have small := ascii c member
    rw [codePoint,if_pos (by omega)]
  rw [plain,List.length_map]
  refine ⟨fun unit member => ?_,long⟩
  obtain ⟨c,inside,rfl⟩ := List.mem_map.mp member
  have small := ascii c inside
  omega
theorem textValue_hex {text : String} {length : Nat} (digits : hex text length = true) :
    Ascii (write (textValue text)) ∧ (write (textValue text)).length = length + 2 := by
  obtain ⟨printed,long⟩ := hex_printed digits
  rw [textValue,write]
  exact ⟨quote_ascii printed,by rw [quote_length printed,long]⟩

theorem narrow_natural {n : Int} {digits : Nat} (some : 0 < digits) (low : 0 ≤ n) (high : n < 10 ^ digits)
    (safe : n ≤ maxSafe) : Narrow n digits := by
  unfold maxSafe at safe
  have small : n.natAbs ≤ 2 ^ 53 := by omega
  refine ⟨writeNumber_ascii small,?_⟩
  rw [writeNumber_whole small,if_neg (by omega),List.nil_append]
  refine decimal_length some ?_
  zify
  rw [abs_of_nonneg low]
  exact high
theorem narrow_amount {n : Int} (valid : amount n = true) : Narrow n 13 := by
  simp only [amount,isSafeInteger,Bool.and_eq_true,decide_eq_true_eq] at valid
  exact narrow_natural (by omega) (by omega) (by omega) (by omega)
theorem narrow_safe {n : Int} (safe : isSafeInteger n = true) (low : 0 ≤ n) : Narrow n 16 := by
  simp only [isSafeInteger,Bool.and_eq_true,decide_eq_true_eq] at safe
  unfold maxSafe at safe
  exact narrow_natural (by omega) low (by omega) (by unfold maxSafe; omega)
theorem narrow_signed {n : Int} (safe : isSafeInteger n = true) : Narrow n 17 := by
  simp only [isSafeInteger,Bool.and_eq_true,decide_eq_true_eq] at safe
  unfold maxSafe at safe
  have small : n.natAbs ≤ 2 ^ 53 := by omega
  refine ⟨writeNumber_ascii small,?_⟩
  have digits : (decimal n.natAbs).length ≤ 16 := decimal_length (by omega) (by omega)
  rw [writeNumber_whole small]
  split
  · simp only [List.length_append,List.length_singleton]
    omega
  · simp only [List.nil_append]
    omega

theorem textValue_short {text : String} {length : Nat} (digits : hex text length = true) :
    Short (textValue text) (length + 2) :=
  ⟨(textValue_hex digits).1,(textValue_hex digits).2.le⟩

/-! ### The widest rows -/

section
variable {options : Options} {data : Data}

theorem account_short {account : Account} (valid : accountValid data account = true) : Short account.value 146 := by
  obtain ⟨id,holding⟩ := account
  simp only [accountValid,Bool.and_eq_true] at valid
  obtain ⟨⟨id_hex,held⟩,_⟩ := valid
  cases holding with
  | aliasTo next =>
    have row := Short.object [((lit "id",textValue id),40),((lit "aliasTo",textValue next),45)] (by
      simp only [List.forall_mem_cons]
      exact ⟨(textValue_short id_hex).column (by decide),(textValue_short held).column (by decide),by simp⟩)
    exact row.within rfl
  | balance b =>
    simp only [Bool.and_eq_true,decide_eq_true_eq] at held
    obtain ⟨⟨⟨⟨⟨⟨limit,spent⟩,paid⟩,revision⟩,revised⟩,generation⟩,born⟩ := held
    have row := Short.object [((lit "id",textValue id),40),((lit "limit",.number b.limit),22),
        ((lit "spent",.number b.spent),25),((lit "revision",.number b.revision),28),
        ((lit "generation",.number b.generation),30)] (by
      simp only [List.forall_mem_cons]
      exact ⟨(textValue_short id_hex).column (by decide),(Short.number (narrow_amount limit)).column (by decide),
        (Short.number (narrow_safe spent paid)).column (by decide),
        (Short.number (narrow_safe revision (by omega))).column (by decide),
        (Short.number (narrow_safe generation (by omega))).column (by decide),by simp⟩)
    exact row.within rfl
theorem known_account {id : String} (accounts : ∀ account ∈ data.accounts, accountValid data account = true)
    (known : data.accounts.any (·.id = id) = true) : hex id 32 = true := by
  obtain ⟨account,member,same⟩ := List.any_eq_true.mp known
  rw [← of_decide_eq_true same]
  have valid := accounts account member
  simp only [accountValid,Bool.and_eq_true] at valid
  exact valid.1.1
theorem method_short {method : String} (known : method = "nostr" ∨ method = "website") :
    Short (textValue method) 9 := by
  rcases known with rfl | rfl
  · exact ⟨by unfold textValue write Ascii; decide,by unfold textValue write; decide⟩
  · exact ⟨by unfold textValue write Ascii; decide,by unfold textValue write; decide⟩
theorem identity_short {identity : Identity} (accounts : ∀ account ∈ data.accounts, accountValid data account = true)
    (valid : identityValid data identity = true) : Short identity.value 139 := by
  simp only [identityValid,Bool.and_eq_true,Bool.or_eq_true,decide_eq_true_eq] at valid
  obtain ⟨⟨id,method⟩,owner⟩ := valid
  have row := Short.object [((lit "id",textValue identity.id),72),((lit "method",textValue identity.method),19),
      ((lit "accountId",textValue identity.accountId),47)] (by
    simp only [List.forall_mem_cons]
    exact ⟨(textValue_short id).column (by decide),(method_short method).column (by decide),
      (textValue_short (known_account accounts owner)).column (by decide),by simp⟩)
  exact row.within rfl
theorem methods_short {methods : List String} (valid : methodsValid methods = true) :
    Short (.array (methods.map textValue)) 19 := by
  simp only [methodsValid,Bool.or_eq_true,decide_eq_true_eq] at valid
  rcases valid with (rfl | rfl) | rfl
  all_goals exact ⟨by unfold Ascii; decide,by decide⟩
theorem renewal_short {renewal : Option Renewal}
    (valid : renewal.all (fun renewal => hex renewal.operationId 32 && hex renewal.token 64) = true) :
    Short (renewal.elim .null Renewal.value) 125 := by
  cases renewal with
  | none => exact ⟨by unfold Option.elim write Ascii; decide,by unfold Option.elim write; decide⟩
  | some renewal =>
    simp only [Option.all_some,Bool.and_eq_true] at valid
    have row := Short.object [((lit "operationId",textValue renewal.operationId),49),
        ((lit "token",textValue renewal.token),75)] (by
      simp only [List.forall_mem_cons]
      exact ⟨(textValue_short valid.1).column (by decide),(textValue_short valid.2).column (by decide),by simp⟩)
    exact row.within rfl
theorem website_short {website : Option String} (valid : website.all (fun id => hex id 64) = true) :
    Short (website.elim .null textValue) 66 := by
  cases website with
  | none => exact ⟨by unfold Option.elim write Ascii; decide,by unfold Option.elim write; decide⟩
  | some id => exact textValue_short valid
theorem grant_short {grant : Grant} (accounts : ∀ account ∈ data.accounts, accountValid data account = true)
    (valid : grantValid data grant = true) : Short grant.value 566 := by
  simp only [grantValid,Bool.and_eq_true,decide_eq_true_eq] at valid
  obtain ⟨⟨⟨⟨⟨⟨⟨⟨⟨token,page⟩,methods⟩,owner⟩,epoch⟩,ends⟩,delegated⟩,_⟩,website⟩,renewal⟩ := valid
  have row := Short.object [((lit "token",textValue grant.token),75),
      ((lit "accountId",textValue grant.accountId),47),((lit "pagePubkey",textValue grant.pagePubkey),80),
      ((lit "methods",.array (grant.methods.map textValue)),30),
      ((lit "websiteIdentity",grant.websiteIdentity.elim .null textValue),85),((lit "epoch",.number grant.epoch),26),
      ((lit "expiresAt",.number grant.expiresAt),30),((lit "delegationExpiresAt",.number grant.delegationExpiresAt),40),
      ((lit "revoked",.bool grant.revoked),16),((lit "renewal",grant.renewal.elim .null Renewal.value),136)] (by
    simp only [List.forall_mem_cons]
    exact ⟨(textValue_short token).column (by decide),
      (textValue_short (known_account accounts owner)).column (by decide),
      (textValue_short page).column (by decide),(methods_short methods).column (by decide),
      (website_short website).column (by decide),(Short.number (narrow_signed epoch)).column (by decide),
      (Short.number (narrow_signed ends)).column (by decide),
        (Short.number (narrow_signed delegated)).column (by decide),
      (Short.bool _).column (by decide),(renewal_short renewal).column (by decide),by simp⟩)
  have length : (write grant.value).length ≤ _ := row.length
  simp only [List.map_cons,List.map_nil,List.sum_cons,List.sum_nil] at length
  exact ⟨row.ascii,length⟩
theorem decision_short {decision : Decision} (grants : ∀ grant ∈ data.grants, grantValid data grant = true)
    (valid : decisionValid data decision = true) : Short decision.value 164 := by
  simp only [decisionValid,Bool.and_eq_true,decide_eq_true_eq] at valid
  obtain ⟨⟨⟨granted,operation⟩,bytes⟩,_⟩ := valid
  have token : hex decision.grant 64 = true := by
    obtain ⟨grant,member,same⟩ := List.any_eq_true.mp granted
    rw [← of_decide_eq_true same]
    have valid := grants grant member
    simp only [grantValid,Bool.and_eq_true] at valid
    exact valid.1.1.1.1.1.1.1.1.1
  have row := Short.object [((lit "grant",textValue decision.grant),75),
      ((lit "operationId",textValue decision.operationId),49),((lit "bytes",.number decision.bytes),22),
      ((lit "accepted",.bool decision.accepted),17)] (by
    simp only [List.forall_mem_cons]
    exact ⟨(textValue_short token).column (by decide),(textValue_short operation).column (by decide),
      (Short.number (narrow_amount bytes)).column (by decide),(Short.bool _).column (by decide),by simp⟩)
  exact row.within rfl

theorem sound_short (accepted : options.accepted) (sound : data.sound options) :
    Ascii data.text ∧ data.text.length ≤ options.widest := by
  obtain ⟨⟨secret,safe,wall⟩,⟨accounts_few,identities_few,grants_few,operations_few⟩,_,accounts,identities,grants,
    operations⟩ := sound
  obtain ⟨_,_,_,⟨account,_⟩,⟨identity,_⟩,⟨grant,_⟩,⟨operation,_⟩⟩ := accepted
  have one : Short (.number 1) 1 := ⟨by unfold Ascii; decide,by decide⟩
  have accounts_short := Short.rows (fun account member => account_short (accounts account member)) accounts_few account
  have identities_short := Short.rows (fun identity member => identity_short accounts (identities identity member))
    identities_few identity
  have grants_short := Short.rows (fun grant member => grant_short accounts (grants grant member)) grants_few grant
  have operations_short := Short.rows (fun decision member => decision_short grants (operations decision member))
    operations_few operation
  have row := Short.object [((lit "v",.number 1),6),((lit "secret",textValue data.secret),76),
      ((lit "lastWall",.number data.lastWall),28),
      ((lit "accounts",.array (data.accounts.map Account.value)),13 + 147 * options.accountCapacity),
      ((lit "identities",.array (data.identities.map Identity.value)),15 + 140 * options.identityCapacity),
      ((lit "grants",.array (data.grants.map Grant.value)),11 + 567 * options.grantCapacity),
      ((lit "operations",.array (data.operations.map Decision.value)),15 + 165 * options.operationCapacity)] (by
    have keys : (lit "accounts").length = 8 ∧ (lit "identities").length = 10 ∧ (lit "grants").length = 6 ∧
        (lit "operations").length = 10 := by decide
    obtain ⟨accounts_key,identities_key,grants_key,operations_key⟩ := keys
    simp only [List.forall_mem_cons]
    refine ⟨one.column (by decide),(textValue_short secret).column (by decide),
      (Short.number (narrow_safe safe wall)).column (by decide),accounts_short.column ⟨by decide,?_⟩,
      identities_short.column ⟨by decide,?_⟩,grants_short.column ⟨by decide,?_⟩,
        operations_short.column ⟨by decide,?_⟩,by simp⟩
    · rw [accounts_key]; omega
    · rw [identities_key]; omega
    · rw [grants_key]; omega
    · rw [operations_key]; omega)
  have ascii : Ascii (write data.value) := row.ascii
  have length : (write data.value).length ≤ _ := row.length
  refine ⟨ascii.append (.cons (by omega) .nil),?_⟩
  simp only [List.map_cons,List.map_nil,List.sum_cons,List.sum_nil] at length
  unfold Data.text Options.widest
  rw [List.length_append,List.length_singleton]
  omega

end

/-! ### A state of the widest rows -/

/-- A hexadecimal text that ends in the digits of a number. -/
def numbered (length k : Nat) : String :=
  String.ofList (List.replicate (length - 4) '0' ++
    [hexDigit (k / 4096 % 16),hexDigit (k / 256 % 16),hexDigit (k / 16 % 16),hexDigit (k % 16)])
theorem hexDigit_hex :
    ∀ n < 16, (('0' ≤ hexDigit n && hexDigit n ≤ '9') || ('a' ≤ hexDigit n && hexDigit n ≤ 'f')) = true := by
  decide
theorem hexDigit_injective : ∀ m < 16, ∀ n < 16, hexDigit m = hexDigit n → m = n := by
  decide
theorem numbered_hex {length : Nat} (long : 4 ≤ length) (k : Nat) : hex (numbered length k) length = true := by
  unfold hex numbered
  rw [Bool.and_eq_true,String.toList_ofList]
  refine ⟨by simp; omega,?_⟩
  rw [List.all_append,Bool.and_eq_true]
  refine ⟨List.all_eq_true.mpr fun c member => ?_,?_⟩
  · rw [List.eq_of_mem_replicate member]
    decide
  · simp only [List.all_cons,List.all_nil,Bool.and_true,Bool.and_eq_true]
    exact ⟨hexDigit_hex _ (by omega),hexDigit_hex _ (by omega),hexDigit_hex _ (by omega),hexDigit_hex _ (by omega)⟩
theorem numbered_injective {length m n : Nat} (small : m < 65536 ∧ n < 65536)
    (same : numbered length m = numbered length n) :
    m = n := by
  have lists := congrArg String.toList same
  unfold numbered at lists
  rw [String.toList_ofList,String.toList_ofList] at lists
  have last := (List.append_inj' lists rfl).2
  simp only [List.cons.injEq,and_true] at last
  obtain ⟨first,second,third,fourth⟩ := last
  have a := hexDigit_injective _ (by omega) _ (by omega) first
  have b := hexDigit_injective _ (by omega) _ (by omega) second
  have c := hexDigit_injective _ (by omega) _ (by omega) third
  have d := hexDigit_injective _ (by omega) _ (by omega) fourth
  omega
theorem numbered_nodup {α : Type} {count : Nat} (length : Nat) (few : count ≤ 65536) (row : Nat → α) {β : Type}
    (key : α → β) (named : ∀ m n, key (row m) = key (row n) → numbered length m = numbered length n) :
    (((List.range count).map row).map key).Nodup := by
  rw [List.map_map]
  refine List.Nodup.map_on (fun m inside n within same => ?_) List.nodup_range
  rw [List.mem_range] at inside within
  exact numbered_injective ⟨by omega,by omega⟩ (named m n same)

def widestAccount (k : Nat) : Account := ⟨numbered 32 k,.balance ⟨1000000000000,maxSafe,maxSafe,maxSafe⟩⟩
def widestIdentity (k : Nat) : Identity := ⟨numbered 64 k,"website",numbered 32 0⟩
def widestGrant (k : Nat) : Grant where
  token := numbered 64 k
  accountId := numbered 32 0
  pagePubkey := numbered 64 0
  methods := ["nostr","website"]
  websiteIdentity := some (numbered 64 0)
  epoch := -maxSafe
  expiresAt := -maxSafe
  delegationExpiresAt := -maxSafe
  revoked := false
  renewal := some ⟨numbered 32 0,numbered 64 0⟩
def widestDecision (k : Nat) : Decision := ⟨numbered 64 0,numbered 32 k,1000000000000,false⟩
/-- Every capacity used up, with rows as wide as any. -/
def fullest (options : Options) : Data where
  secret := numbered 64 0
  lastWall := maxSafe
  accounts := (List.range options.accountCapacity).map widestAccount
  identities := (List.range options.identityCapacity).map widestIdentity
  grants := (List.range options.grantCapacity).map widestGrant
  operations := (List.range options.operationCapacity).map widestDecision

section
variable {options : Options}

theorem fullest_known (some : 1 ≤ options.accountCapacity) :
    (fullest options).accounts.any (fun account => account.id = numbered 32 0) = true := by
  refine List.any_eq_true.mpr ⟨widestAccount 0,List.mem_map.mpr ⟨0,List.mem_range.mpr some,rfl⟩,?_⟩
  exact decide_eq_true rfl
theorem fullest_account {k : Nat} (inside : k < options.accountCapacity) :
    accountValid (fullest options) (widestAccount k) = true := by
  have found : (canonical (fullest options) (numbered 32 k)).isSome = true := by
    unfold canonical canonicalFrom
    cases first : (fullest options).accounts.find? (fun account => account.id = numbered 32 k) with
    | none =>
      have absent := List.find?_eq_none.mp first (widestAccount k) (List.mem_map.mpr ⟨k,List.mem_range.mpr inside,rfl⟩)
      exact absurd (decide_eq_true rfl) absent
    | some account =>
      obtain ⟨other,_,rfl⟩ := List.mem_map.mp (List.mem_of_find?_eq_some first)
      rfl
  unfold accountValid widestAccount
  simp only [numbered_hex (show 4 ≤ 32 by omega),found,Bool.true_and,Bool.and_true]
  decide
theorem fullest_sound (accepted : options.accepted) : (fullest options).sound options := by
  obtain ⟨_,_,_,accounts,identities,grants,operations⟩ := accepted
  have known := fullest_known accounts.1
  refine ⟨⟨numbered_hex (by omega) 0,rfl,show (0 : Int) ≤ maxSafe by decide⟩,⟨?_,?_,?_,?_⟩,⟨?_,?_,?_,?_⟩,?_,?_,?_,?_⟩
  · simp [fullest]
  · simp [fullest]
  · simp [fullest]
  · simp [fullest]
  · exact numbered_nodup 32 (by omega) _ _ fun m n same => same
  · exact numbered_nodup 64 (by omega) _ _ fun m n same => same
  · exact numbered_nodup 64 (by omega) _ _ fun m n same => same
  · exact numbered_nodup 32 (by omega) _ _ fun m n same => (Prod.mk.inj same).2
  · intro account member
    obtain ⟨k,inside,rfl⟩ := List.mem_map.mp member
    exact fullest_account (List.mem_range.mp inside)
  · intro identity member
    obtain ⟨k,_,rfl⟩ := List.mem_map.mp member
    unfold identityValid widestIdentity
    simp only [numbered_hex (show 4 ≤ 64 by omega),known,Bool.true_and,Bool.and_true]
    rfl
  · intro grant member
    obtain ⟨k,_,rfl⟩ := List.mem_map.mp member
    unfold grantValid widestGrant
    simp only [numbered_hex (show 4 ≤ 64 by omega),numbered_hex (show 4 ≤ 32 by omega),known,Option.all_some,
      Bool.true_and,Bool.and_true]
    rfl
  · intro decision member
    obtain ⟨k,_,rfl⟩ := List.mem_map.mp member
    have granted : (fullest options).grants.any (fun grant => grant.token = numbered 64 0) = true :=
      List.any_eq_true.mpr ⟨widestGrant 0,List.mem_map.mpr ⟨0,List.mem_range.mpr grants.1,rfl⟩,decide_eq_true rfl⟩
    unfold decisionValid widestDecision
    simp only [numbered_hex (show 4 ≤ 32 by omega),granted,Bool.true_and,Bool.and_true]
    rfl

theorem object_wide (columns : List ((Text × Value) × Nat))
    (wide : ∀ column ∈ columns, column.2 ≤ (quote column.1.1).length + (write column.1.2).length + 2) :
    2 + ((columns.map (·.2)).sum - 1) ≤ (write (.object (columns.map (·.1)))).length := by
  rw [object_length,List.map_map]
  have total : (columns.map (·.2)).sum ≤
      (columns.map (fun column => (quote column.1.1).length + (write column.1.2).length + 2)).sum :=
        List.sum_le_sum wide
  simp only [Function.comp_def]
  omega
theorem column_wide {key : Text} {value : Value} {length units : Nat} (wide : length ≤ (write value).length)
    (fits : Printed key ∧ units ≤ key.length + length + 4) : units ≤ (quote key).length + (write value).length + 2 := by
  rw [quote_length fits.1]
  omega
theorem rows_wide {α : Type} {value : α → Value} {width capacity : Nat} (row : Nat → α)
    (wide : ∀ k, width ≤ (write (value (row k))).length) (some : 1 ≤ capacity) :
    (width + 1) * capacity + 1 ≤ (write (.array (((List.range capacity).map row).map value))).length := by
  rw [array_length,List.map_map,List.map_map]
  have total :=
    List.card_nsmul_le_sum ((List.range capacity).map (((fun item => (write item).length + 1) ∘ value) ∘ row))
    (width + 1) (by
      intro n member
      obtain ⟨k,_,rfl⟩ := List.mem_map.mp member
      exact Nat.succ_le_succ (wide k))
  rw [List.length_map,List.length_range,nsmul_eq_mul,Nat.cast_id,Nat.mul_comm] at total
  have room : 1 ≤ (width + 1) * capacity := Nat.mul_pos (by omega) some
  omega
theorem text_wide {text : String} {length : Nat} (digits : hex text length = true) :
    length + 2 ≤ (write (textValue text)).length := (textValue_hex digits).2.ge

theorem amount_wide : 13 ≤ (write (.number ((1000000000000 : Int) : ℚ))).length := by decide +kernel
theorem safe_wide : 16 ≤ (write (.number (maxSafe : ℚ))).length := by decide +kernel
theorem signed_wide : 17 ≤ (write (.number ((-maxSafe : Int) : ℚ))).length := by decide +kernel
theorem refused_wide : 5 ≤ (write (.bool false)).length := by decide

theorem widestAccount_wide (k : Nat) : 146 ≤ (write (widestAccount k).value).length :=
  object_wide [((lit "id",textValue (numbered 32 k)),40),((lit "limit",.number ((1000000000000 : Int) : ℚ)),22),
      ((lit "spent",.number (maxSafe : ℚ)),25),((lit "revision",.number (maxSafe : ℚ)),28),
      ((lit "generation",.number (maxSafe : ℚ)),30)] (by
    simp only [List.forall_mem_cons]
    exact ⟨column_wide (text_wide (numbered_hex (by omega) k)) (by decide),column_wide amount_wide (by decide),
      column_wide safe_wide (by decide),column_wide safe_wide (by decide),column_wide safe_wide (by decide),by simp⟩)
theorem widestIdentity_wide (k : Nat) : 139 ≤ (write (widestIdentity k).value).length :=
  object_wide [((lit "id",textValue (numbered 64 k)),72),((lit "method",textValue "website"),19),
      ((lit "accountId",textValue (numbered 32 0)),47)] (by
    have method : 9 ≤ (write (textValue "website")).length := by decide
    simp only [List.forall_mem_cons]
    exact ⟨column_wide (text_wide (numbered_hex (by omega) k)) (by decide),column_wide method (by decide),
      column_wide (text_wide (numbered_hex (by omega) 0)) (by decide),by simp⟩)
theorem widestRenewal_wide : 125 ≤ (write (Renewal.value ⟨numbered 32 0,numbered 64 0⟩)).length :=
  object_wide [((lit "operationId",textValue (numbered 32 0)),49),((lit "token",textValue (numbered 64 0)),75)] (by
    simp only [List.forall_mem_cons]
    exact ⟨column_wide (text_wide (numbered_hex (by omega) 0)) (by decide),
      column_wide (text_wide (numbered_hex (by omega) 0)) (by decide),by simp⟩)
theorem widestGrant_wide (k : Nat) : 566 ≤ (write (widestGrant k).value).length := by
  have row :=
    object_wide [((lit "token",textValue (numbered 64 k)),75),((lit "accountId",textValue (numbered 32 0)),47),
      ((lit "pagePubkey",textValue (numbered 64 0)),80),((lit "methods",.array (["nostr","website"].map textValue)),30),
      ((lit "websiteIdentity",textValue (numbered 64 0)),85),((lit "epoch",.number ((-maxSafe : Int) : ℚ)),26),
      ((lit "expiresAt",.number ((-maxSafe : Int) : ℚ)),30),
        ((lit "delegationExpiresAt",.number ((-maxSafe : Int) : ℚ)),40),
      ((lit "revoked",.bool false),16),((lit "renewal",Renewal.value ⟨numbered 32 0,numbered 64 0⟩),136)] (by
    have methods : 19 ≤ (write (.array (["nostr","website"].map textValue))).length := by decide
    simp only [List.forall_mem_cons]
    exact ⟨column_wide (text_wide (numbered_hex (by omega) k)) (by decide),
      column_wide (text_wide (numbered_hex (by omega) 0)) (by decide),
      column_wide (text_wide (numbered_hex (by omega) 0)) (by decide),column_wide methods (by decide),
      column_wide (text_wide (numbered_hex (by omega) 0)) (by decide),column_wide signed_wide (by decide),
      column_wide signed_wide (by decide),column_wide signed_wide (by decide),column_wide refused_wide (by decide),
      column_wide widestRenewal_wide (by decide),by simp⟩)
  have length : _ ≤ (write (widestGrant k).value).length := row
  simp only [List.map_cons,List.map_nil,List.sum_cons,List.sum_nil] at length
  exact length
theorem widestDecision_wide (k : Nat) : 164 ≤ (write (widestDecision k).value).length :=
  object_wide [((lit "grant",textValue (numbered 64 0)),75),((lit "operationId",textValue (numbered 32 k)),49),
      ((lit "bytes",.number ((1000000000000 : Int) : ℚ)),22),((lit "accepted",.bool false),17)] (by
    simp only [List.forall_mem_cons]
    exact ⟨column_wide (text_wide (numbered_hex (by omega) 0)) (by decide),
      column_wide (text_wide (numbered_hex (by omega) k)) (by decide),column_wide amount_wide (by decide),
      column_wide refused_wide (by decide),by simp⟩)
theorem fullest_wide (accepted : options.accepted) : options.widest ≤ (fullest options).text.length := by
  obtain ⟨_,_,_,accounts,identities,grants,operations⟩ := accepted
  have one : 1 ≤ (write (.number 1)).length := by decide
  have keys : (lit "accounts").length = 8 ∧ (lit "identities").length = 10 ∧ (lit "grants").length = 6 ∧
      (lit "operations").length = 10 := by decide
  obtain ⟨accounts_key,identities_key,grants_key,operations_key⟩ := keys
  have row := object_wide [((lit "v",.number 1),6),((lit "secret",textValue (numbered 64 0)),76),
      ((lit "lastWall",.number (maxSafe : ℚ)),28),
      ((lit "accounts",.array ((fullest options).accounts.map Account.value)),13 + 147 * options.accountCapacity),
      ((lit "identities",.array ((fullest options).identities.map Identity.value)),15 + 140 * options.identityCapacity),
      ((lit "grants",.array ((fullest options).grants.map Grant.value)),11 + 567 * options.grantCapacity),
      ((lit "operations",.array ((fullest options).operations.map Decision.value)),
        15 + 165 * options.operationCapacity)] (by
    simp only [List.forall_mem_cons]
    refine ⟨column_wide one (by decide),column_wide (text_wide (numbered_hex (by omega) 0)) (by decide),
      column_wide safe_wide (by decide),
        column_wide (rows_wide widestAccount widestAccount_wide accounts.1) ⟨by decide,?_⟩,
      column_wide (rows_wide widestIdentity widestIdentity_wide identities.1) ⟨by decide,?_⟩,
      column_wide (rows_wide widestGrant widestGrant_wide grants.1) ⟨by decide,?_⟩,
      column_wide (rows_wide widestDecision widestDecision_wide operations.1) ⟨by decide,?_⟩,by simp⟩
    · rw [accounts_key]; omega
    · rw [identities_key]; omega
    · rw [grants_key]; omega
    · rw [operations_key]; omega)
  have length : _ ≤ (write (fullest options).value).length := row
  simp only [List.map_cons,List.map_nil,List.sum_cons,List.sum_nil] at length
  unfold Data.text Options.widest
  rw [List.length_append,List.length_singleton]
  omega

/-- Every state that passes its checks fits the store exactly when the widest rows at
    every capacity do. -/
theorem widest_iff (accepted : options.accepted) :
    (∀ data, Data.sound options data → data.fits) ↔ options.widest ≤ maxBytes := by
  have bytes : ∀ data : Data, data.sound options → (utf8Bytes data.text).length = data.text.length :=
    fun data sound => utf8Bytes_length _ (sound_short accepted sound).1
  constructor
  · intro all
    have fits := all _ (fullest_sound accepted)
    unfold Data.fits at fits
    rw [bytes _ (fullest_sound accepted)] at fits
    exact le_trans (fullest_wide accepted) fits
  · intro room data sound
    unfold Data.fits
    rw [bytes data sound]
    exact le_trans (sound_short accepted sound).2 room

end

end RelaySwarm.Ledger
