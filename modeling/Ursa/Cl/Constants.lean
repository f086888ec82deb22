import Ursa.Bn

namespace Ursa

-- `cl/constants.rs`: bit lengths of the numbers in the protocol.
def largeEStart : ℕ := 596
def largeEEndRange : ℕ := 119
def largeVPrime : ℕ := 2128
def largeVPrimePrime : ℕ := 2724
def largeMVect : ℕ := 592
def largeETilde : ℕ := 456
def largeVTilde : ℕ := 3060
def largeUTilde : ℕ := 592
def largeMTilde : ℕ := 593
def largeVPrimeTilde : ℕ := 673
def largeRTilde : ℕ := 672
def iteration : ℕ := 4
def largeAlphaTilde : ℕ := 2787

def largeEStartValue : BigNumber := (2 ^ largeEStart : ℕ)

def largeEEndRangeValue : BigNumber := (2 ^ largeEEndRange : ℕ) + largeEStartValue

def largeVPrimePrimeValue : ℕ := 2 ^ (largeVPrimePrime - 1)

end Ursa
