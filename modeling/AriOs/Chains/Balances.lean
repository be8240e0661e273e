import AriOs.Js.Numeral
import AriOs.Js.Throw
import AriOs.Kernel.Contracts

/-!
# Reading a balance

`SolanaRpc.readBalance` sums what an owner has of a mint over the accounts of both token programs,
with one read for each program. A read that fails is passed over, and so is an account that the node
could not parse: what is returned then lacks that part.
-/

namespace AriOs.Chains.Solana

open AriOs.Js AriOs.Kernel

def TOKEN_PROGRAM_ID : String := "TokenkegQfeZyiNwAJbNbGKPFXCWuBvf9Ss623VQ5DA"
def TOKEN_2022_PROGRAM_ID : String := "TokenzQdBNbLqP5VEhdkAS6EPFLC1PHnBqCXEpPxuEb"
def TOKEN_PROGRAMS : List String := [TOKEN_PROGRAM_ID, TOKEN_2022_PROGRAM_ID]

/-- What is read of an account that the node has parsed: `tokenAmount.amount`. -/
structure TokenAccInfo where
  amount : String
  deriving DecidableEq, Repr

/-- The client: `new PublicKey`, and the two reads. An account that is not parsed has no info. -/
structure Connection where
  publicKey : String → Except String Unit
  getBalance : String → Except String JsNumber
  getParsedTokenAccountsByOwner :
    (owner mint programId : String) → Except String (List (Option TokenAccInfo))

/-! ### The reader -/

variable (connection : Connection)

/-- An account, and whether the node parses it. -/
structure TokenAccount where
  amount : Nat
  parsed : Bool

def TokenAccount.info (a : TokenAccount) : Option TokenAccInfo :=
  if a.parsed then some ⟨toString (a.amount : Int)⟩ else none

structure Chain where
  lamports : String → Nat
  accounts : (owner mint programId : String) → List TokenAccount

/-- The node either fails or answers with what is on the chain. -/
structure Answers (chain : Chain) : Prop where
  balance : ∀ owner n, connection.getBalance owner = .ok n → n = .ofInt (chain.lamports owner)
  accounts : ∀ owner mint programId infos,
    connection.getParsedTokenAccountsByOwner owner mint programId = .ok infos →
      infos = (chain.accounts owner mint programId).map TokenAccount.info

/-- What accounts hold together. -/
def holdings (accounts : List TokenAccount) : Nat := (accounts.map TokenAccount.amount).sum

/-- The balance of an owner. The mint of wrapped SOL stands for the native one. -/
def Chain.owned (chain : Chain) (owner mint : String) : Nat :=
  if mint = WSOL_MINT then chain.lamports owner
  else (TOKEN_PROGRAMS.map fun programId => holdings (chain.accounts owner mint programId)).sum

variable {connection} {chain : Chain} {owner mint : String}

/-- What is counted of a program. -/
def counted (connection : Connection) (chain : Chain) (owner mint programId : String) : Nat :=
  match connection.getParsedTokenAccountsByOwner owner mint programId with
  | .error _ => 0
  | .ok _ => holdings ((chain.accounts owner mint programId).filter TokenAccount.parsed)

/-- Ten units of a mint under the first program, and five under the second. -/
def tenAndFive : Chain where
  lamports _ := 0
  accounts _ _ programId := if programId = TOKEN_PROGRAM_ID then [⟨10, true⟩] else [⟨5, true⟩]

/-- A node that fails to read some programs. -/
def node (fails : String → Bool) : Connection where
  publicKey _ := .ok ()
  getBalance _ := .ok (.ofInt 0)
  getParsedTokenAccountsByOwner owner mint programId :=
    if fails programId then .error "429 Too Many Requests"
    else .ok ((tenAndFive.accounts owner mint programId).map TokenAccount.info)

end AriOs.Chains.Solana
