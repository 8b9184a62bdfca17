import Cadsa.Db.Users

/-! The refresh-token helpers of `db/sqlite_manager.py`. Of a row the columns that are read. -/
namespace Cadsa.Db
open Tables
set_option autoImplicit false

structure RefreshToken where
  userId : ℕ
  tokenHash : String
  expiresAt : Time
  revoked : Bool
  deriving DecidableEq

abbrev RefreshTokens := Table String RefreshToken RefreshToken.tokenHash

def days (n : ℕ) : Time := n * minutes 1440

/-- Nothing where the hash is taken: the column is UNIQUE and the insert raises. -/
def storeRefreshToken (tokens : RefreshTokens) (now : Time) (userId : ℕ) (tokenHash : String) : Option RefreshTokens :=
  tokens.insert ⟨userId, tokenHash, now + days 7, false⟩

def validateRefreshToken (tokens : RefreshTokens) (now : Time) (tokenHash : String) : Option RefreshToken :=
  (tokens.find tokenHash).filter fun row => !row.revoked && decide (now < row.expiresAt)

def revokeRefreshToken (tokens : RefreshTokens) (tokenHash : String) : RefreshTokens :=
  tokens.modify tokenHash (fun row => { row with revoked := true }) fun _ => rfl

end Cadsa.Db
