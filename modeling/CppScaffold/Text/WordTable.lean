import CppScaffold.Text.Table

/-!
# Letters and digits beyond ASCII

The code points above U+007F that are letters, decimal digits or other numeric characters. Together with
the ASCII letters, the ASCII digits and the low line they are the characters of which words are made.
-/

namespace CppScaffold.Text

/-- The runs of letters and digits above U+007F: in turn, how many code points come before the next run and how
many are in it. -/
def wordRuns : List Nat := rows [
  0x110a12797279113c9124295a3d5d443b7891d6126c16ca0939a13a914a1113116114221518a111756949429f17b17a13123112712da,
  0x121716a22460912624943125910a134311716a2220940a129429712a136e2f2d1a610b53971b7a13119146a5142193d691391b95b6b,
  0x7a131092a595a16a4933323211123413361139712943126b135121716a222093911929427912a135121716a131190a322971147b212,
  0x1511127c2919749210e1a297b72111910b32a5613a42913510a121d131191a212942127b13512917a13109411709294221232b130a1,
  0x792411172411c2411d24111724159d13d215116c62911495943723134466394a3d3e953b4c109494a7b10c422919115211921291110b,
  0x44d39520d7c7b296895112c2571b96296a2962931413c4e793159692a693a592a739339952b11a24d993626a90a0a34a693892411f1,
  0x11715e27b1111111092626c2626ac08908b513216141d323d71921e3294b4c2b0f596b1d293091a7d5b9159296293d5e197a5c3962b,
  0x7a0a170f215116c211923465cb4d9a6b6e996a6994f6ab92f11455423914111111653112921415c95963956223e9713559462437133,
  0x359c26d38959abd08908fc908d797c290c791096b290c0a0e0c29436b913d5412b91366a945257191b35af10a971717171717171719,
  0x2e3137a629409137a1d11b156394b7d75b1b7a296c1211360b294b2e694e296597a141310a0b51112508927c92197c0a927b0a7d4a4b,
  0x6e20892a3dd1c4d91212111515912911554976c2d926dd48c8a1e47a494ceda629593e966913d17171962626493739230b1112522311,
  0x6ba2d510944c26b296c56b194c43b0a1e35b4eb21a1f495d493f92c692791213a12b1493c326262631b9392b62b7293a78a154e9490d,
  0x24a40f6892b41c5213a0e19096c27b27a213214d11265891912d160b09296a197ec3892171791391217179139494e090d44c44c6292,
  0x2b5e497a4a4b6d2a3b4396a090d699262d17b6cc29492d73e593e7e1990a977a2b53b26a296e0a564b1090c0c17b7a19295b1314797d,
  0x5e6ba54912a135121716a2220939291a7d7291791411174a91b12a394a41139394690e49133c09121429794c192971b0c5d5912216b,
  0x1110a7c2096892969111790b1210921209493a94e94d1fa74495a3b6e2971593d6c293914a0e4c41d7d6ca29091124a0e6b3529542a,
  0x1c9499d48b1a7d96c92be93d5a7915fa3a6ec2971690c12166291915a6c12170e96b55b7911a5c11978c1992a13a6d3915a170d2914b,
  0x47cb9a192d6aba090ffb94b11208959289153991d97a90ea93a55a171294940a0e2a6b629179962917b71f891fe8a78991aff7d8a79,
  0x7b11b11b24ad1731151414b17109241189171114914222122178915a978a1b4d94a689b92971935953d948cc49e0941a35d3cc12171,
  0x28b7915d49941313f7ac9294174890e19258b1791214176cba2944d2a6b18d142927295d1cf7b08cb2e20911b17b11b17b11b17b11b1,
  0x28ab926bb71f8890c0cbba9688a293cbd5948991a151351a1291114141714211211111111112112131111114161111412911211213b14,
  0x39d992cfa6b897b8e1ece969]

end CppScaffold.Text
