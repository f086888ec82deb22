import Ursa.Bls.Theorems
import Ursa.BnBackends
import Ursa.Cl.Theorems.Completeness.Issuance
import Ursa.Cl.Theorems.Completeness.Rejection
import Ursa.Cl.Theorems.CredentialContext
import Ursa.Cl.Theorems.Exactness
import Ursa.Cl.Theorems.FourSquares
import Ursa.Cl.Theorems.Hiding.Disclosure
import Ursa.Cl.Theorems.Hiding.Issuance
import Ursa.Cl.Theorems.Hiding.Revocation
import Ursa.Cl.Theorems.IssuanceSoundness
import Ursa.Cl.Theorems.KeySoundness
import Ursa.Cl.Theorems.Processing
import Ursa.Cl.Theorems.Revocation.Delivery
import Ursa.Cl.Theorems.Revocation.Forgery
import Ursa.Cl.Theorems.Revocation.Tails
import Ursa.Cl.Theorems.Robustness.Issuer
import Ursa.Cl.Theorems.Robustness.Verifier
import Ursa.Cl.Theorems.Verification.Nonce
import Ursa.Cl.Theorems.Verification.Unsigned
import Ursa.PairAmcl
import Ursa.Zmix.Theorems.EncryptionSoundness
import Ursa.Zmix.Theorems.Group
import Ursa.Zmix.Theorems.Hiding
import Ursa.Zmix.Theorems.Keys
import Ursa.Zmix.Theorems.Label
import Ursa.Zmix.Theorems.Totality
