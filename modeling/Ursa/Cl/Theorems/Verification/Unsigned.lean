import Ursa.Cl.Theorems.Completeness.Processed

namespace Ursa

open BigNumber UrsaCryptoResult

variable {C : Curve} {env : Env} {pPubKey : CredentialPrimaryPublicKey} {values : CredentialValues}

namespace Request

variable {r : Request C} {names : List String}

end Request

section Mod77

end Mod77
end Ursa
