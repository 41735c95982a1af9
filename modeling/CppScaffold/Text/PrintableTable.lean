import CppScaffold.Text.Table

/-!
# Characters that are shown as they are

The runs of printable code points: in turn, how many come before the next run and how many are in it.
-/

namespace CppScaffold.Text

def printableRuns : List Nat := rows [
  0x24311716a2220911ca1299197b5391124b17921e23f695c923f20e108b16a1a643b097e1322e26c159e14a111746229b91492c7b90c,
  0x32221925121716a22209131774924791231312925121716a1311913291a711471332245112212121716a22461321b25124109422219,
  0x59212924126274131192512917a1316a72924212312741311920a17a1315955a69161241335449333232111234133612292a2512437,
  0x51168b5c5917914c17c44c10990c422926111527a1110b1511125c5b42f493229609111641372111910b32a1312b20a461313e13159,
  0x3d71b963916962962926b949213159494a190b196a71b934b108a92626a962b30c23892411f1792411172411c2411d2411172411fd21,
  0x1111111092626c2626a8953d093923d74f37934f094e917d35991e7b26962963925b118926f33962b44d39522d3144944917b296895,
  0x6f91717171717171717190b69270f215115d55bd10c24acb5a391b7aa9449a791c791c35913b221a7d090b1a191323a1626917915e27b,
  0x39169936b394e964909689090f62933f0b51112539b090fa4a4bd197e35d99f17d494a916b913d57c926a917f5492b6ab491b912b2c,
  0x13e62d0c176e25fe0a5f91212111512b554976c2d926dd48c8a1e47a494ceda62926f944f17171962626294b0b7c9229269197e11c4,
  0x2926ba2d6945c16b53d56b194c44b791e35b28a6d7d135910b935d4353f92c692791213a12b14922597173326262636fa478a154413a,
  0x12e24a40f089153b31c5213a0e190909917a213214d11265891912d160b09296a197ec3892171791391217179149394e090d44c44c6,
  0x4c4699197a4a4b6c2b6a2d090d69922312d17b6cc29096d73e593e7e1990a9749472b53b25b36e194947c0c0897197294325b1310952,
  0x29090996b514b939a537275161232222915121716a222091462953f6391791411171894d12a394a10c9197c092a15e62971b59516f19,
  0x6915d11978c199593a9090993b3926d2096892919492216b1210921209493a94c94f1fa7a47923b6e2962f3a59629395892c6c26e6ca,
  0x1f891fe8a78991aff7d8a593c9499d48b39517d96c93be9592e7917ea1b6ec29761215c12166290919121134d12171996916a20c35b29,
  0x48cc49e0941a35d3cc1217147cb9a192d6aba090ffb96923950891a71f43995c93b90ea93a55a171292968929626b62911a942917b7,
  0x414b17109241189171114914222122178915a978a1b197a9494a2ba6895a0e90929927c296eb4f4e9197a26d0c999422971935953d9,
  0x4994891ac9242944991d0a258b1791214170cba152f1a7b08d242926935d5ab5121721a171cb7b0a9a7915796fa924cc24ad1731151,
  0x5b0f6da295c179179279494c944d69c24e1a151351a1291114141714211211111111112112131111114161111412911211213b1428b5f,
  0x688a295c7e13aa197090962929653935b1973535269494ad699226b090d629090f44979144971b9494e935930a50bf92ba669271944d59,
  0x107db5eeeeda39d992cfa6b897b8e1ece96928ab926bb71f8890c0cbba9]

end CppScaffold.Text
